import Hc32Board.AtClient.Response
import Hc32Board.CodeLib.Run

/-!
# The network interface of the Ai-WB2 driver

The functions of `at_device_aiwb2.c` that write `device->is_init` and the up
and link flags of the netdev, as a transition system: `at_device_register`
with `aiwb2_init`, `aiwb2_netdev_set_up`, `aiwb2_netdev_set_down`,
`aiwb2_reset`, `aiwb2_init_thread_entry` with its retry loop, and
`urc_wifi_func`.

One thread makes the calls.  The initialisation is synchronous, so a call goes
through `aiwb2_init_thread_entry` itself.  The parser thread handles the events
of the module between any two steps.

The outcome of every wait, allocation and AT command is an action.  A statement
that writes a flag is a step of its own.

The history has two values.

* `passed`: the most recent run of `aiwb2_init_thread_entry` completed a pass of
  its four commands, and `aiwb2_netdev_set_down` was not called since.
* `joined`: the last news of the access point, from a reply to `AT+WJAP` or
  from an event.

The delayed work that refreshes the addresses is left out; it writes none of
these flags.
-/

namespace Hc32Board.AiWb2.Netdev

open Hc32Board.CodeLib
open Hc32Board.AtClient

/-! ## Events -/

inductive WifiEvent where
  | connect | gotIp | disconnect
deriving DecidableEq, Repr

/-- The link state that an event reports. -/
def WifiEvent.linkUp : WifiEvent → Bool
  | .connect | .gotIp => true
  | .disconnect => false

/-- The branch of `urc_wifi_func` that a line takes. -/
def wifiEvent (data : Bytes) : Option WifiEvent :=
  if strstr (ascii "+EVENT:WIFI_CONNECT") (cstr data) then some .connect
  else if strstr (ascii "+EVENT:WIFI_GOT_IP") (cstr data) then some .gotIp
  else if strstr (ascii "+EVENT:WIFI_DISCONNECT") (cstr data) then some .disconnect
  else none

example : wifiEvent (ascii "+EVENT:WIFI_DISCONNECT\r\n") = some .disconnect := by decide

/-! ## The calls -/

/-- The function that runs `aiwb2_init_thread_entry`. -/
inductive Caller where
  | register | setUp | reset
deriving DecidableEq, Repr

/-- The commands of one pass, in order. -/
inductive InitCmd where
  | rst | ate0 | wmode | gmr
deriving DecidableEq, Repr

def InitCmd.next : InitCmd → Option InitCmd
  | .rst => some .ate0
  | .ate0 => some .wmode
  | .wmode => some .gmr
  | .gmr => none

/-- `INIT_RETRY`. -/
def initRetry : Nat := 5

/-- Where the calling thread is. -/
inductive Pc where
  | idle
  /-- `aiwb2_init`: `at_client_get`. -/
  | clientGet
  /-- `aiwb2_init`: `aiwb2_netdev_add`. -/
  | netdevAdd
  /-- `at_device_register`: the last write of `is_init`. -/
  | registerEnd (ok : Bool)
  /-- `aiwb2_reset`: behind `AT+RST`, before `is_init` is cleared. -/
  | resetClear
  /-- `aiwb2_reset`: `at_client_obj_wait_connect`. -/
  | resetWait
  /-- `aiwb2_init_thread_entry`: `at_client_obj_wait_connect`. -/
  | wait (c : Caller)
  | createResp (c : Caller)
  /-- A command of the retry loop, with `retry_num` after its decrement. -/
  | cmd (c : Caller) (retryNum : Nat) (k : InitCmd)
  /-- `AT+WJAP`.  `ok` says that `result` is `RT_EOK`. -/
  | join (c : Caller) (ok : Bool)
  | statusDown (c : Caller)
  | setInit (c : Caller) (wifiIsConn : Bool)
  | statusUp (c : Caller) (wifiIsConn : Bool)
  | setLink (c : Caller) (wifiIsConn : Bool)
  /-- `aiwb2_net_init` has returned to its caller. -/
  | back (c : Caller)
deriving DecidableEq, Repr

structure Device where
  /-- The netdev exists. -/
  netdev : Bool
  isInit : Bool
  /-- `NETDEV_FLAG_UP`. -/
  up : Bool
  /-- `NETDEV_FLAG_LINK_UP`. -/
  linkUp : Bool
  pc : Pc
  passed : Bool
  joined : Bool
deriving DecidableEq, Repr

def Device.powerOn : Device := ⟨false, false, false, false, .idle, false, false⟩

inductive Act where
  | register
  | setUp
  | setDown
  | reset
  /-- The end of a wait, an allocation or an AT command. -/
  | outcome (ok : Bool)
  /-- The response of `AT+WJAP` has no buffer, and the command is sent without a
  wait for its reply. -/
  | noResp
  /-- A statement that writes a flag. -/
  | next
  /-- A line for `urc_wifi_func`. -/
  | urc (data : Bytes)
deriving DecidableEq, Repr

/-! ## The steps -/

/-- `aiwb2_netdev_set_up`, called by itself or by `aiwb2_init`.  An initialised
device is left alone. -/
def Device.beginSetUp (d : Device) (c : Caller) : Device :=
  if d.isInit then
    { d with pc := if c = .register then .registerEnd true else .idle }
  else { d with pc := .wait c }

/-- `aiwb2_netdev_set_down`. -/
def Device.setDown (d : Device) : Device :=
  if d.isInit then { d with isInit := false, up := false, passed := false }
  else { d with passed := false }

/-- A run of `aiwb2_init_thread_entry` that returns before its commands. -/
def Device.giveUp (d : Device) (c : Caller) : Device := { d with passed := false, pc := .back c }

/-- The end of a command of the retry loop. -/
def Device.cmdEnd (d : Device) (c : Caller) (retryNum : Nat) (k : InitCmd) (ok : Bool) : Device :=
  if ok then
    match k.next with
    | some k => { d with pc := .cmd c retryNum k }
    | none => { d with passed := true, pc := .join c true }
  else
    match retryNum with
    | 0 => { d with passed := false, pc := .join c false }
    | n + 1 => { d with pc := .cmd c n .rst }

/-- `aiwb2_init_thread_entry` behind `AT+WJAP`. -/
def Device.joinEnd (d : Device) (c : Caller) (ok wifiIsConn : Bool) : Device :=
  { d with pc := if ok then .setInit c wifiIsConn else .statusDown c }

def Device.outcome (d : Device) (ok : Bool) : Device :=
  match d.pc with
  | .clientGet => { d with pc := if ok then .netdevAdd else .registerEnd false }
  | .netdevAdd =>
    if ok then { d with netdev := true }.beginSetUp .register
    else { d with pc := .registerEnd false }
  | .resetWait => { d with pc := if ok then .wait .reset else .idle }
  | .wait c => if ok then { d with pc := .createResp c } else d.giveUp c
  | .createResp c => if ok then { d with pc := .cmd c (initRetry - 1) .rst } else d.giveUp c
  | .cmd c retryNum k => d.cmdEnd c retryNum k ok
  | .join c result => { d with joined := ok || d.joined }.joinEnd c result ok
  | _ => d

def Device.next (d : Device) : Device :=
  match d.pc with
  | .registerEnd ok => { d with isInit := ok, pc := .idle }
  | .resetClear => { d with isInit := false, pc := .resetWait }
  | .statusDown c => { d with up := false, pc := .back c }
  | .setInit c conn => { d with isInit := true, pc := .statusUp c conn }
  | .statusUp c conn => { d with up := true, pc := .setLink c conn }
  | .setLink c conn => { d with linkUp := conn || d.linkUp, pc := .back c }
  | .back .register => { d with up := true, pc := .registerEnd true }
  | .back .setUp => { d with up := true, pc := .idle }
  | .back .reset => { d with isInit := true, pc := .idle }
  | _ => d

/-- `urc_wifi_func`. -/
def Device.urc (d : Device) (data : Bytes) : Device :=
  match wifiEvent data with
  | none => d
  | some e => { d with linkUp := if d.isInit then e.linkUp else d.linkUp, joined := e.linkUp }

/-- The calling thread can begin a call on the netdev. -/
def Device.ready (d : Device) : Bool := d.netdev && d.pc == .idle

def step (d : Device) : Act → Device
  | .register => if d.pc = .idle then { d with pc := .clientGet } else d
  | .setUp => if d.ready then d.beginSetUp .setUp else d
  | .setDown => if d.ready then d.setDown else d
  | .reset => if d.ready then { d with pc := .resetClear } else d
  | .outcome ok => d.outcome ok
  | .noResp =>
    match d.pc with
    | .join c result => d.joinEnd c result true
    | _ => d
  | .next => d.next
  | .urc data => d.urc data

/-! ## Is the flag truthful? -/

/-- The device is marked initialised or up only after a pass of the most recent
run, with no `aiwb2_netdev_set_down` since. -/
def Truthful (d : Device) : Prop := d.isInit = true ∨ d.up = true → d.passed = true

instance (d : Device) : Decidable (Truthful d) := inferInstanceAs (Decidable (_ → _))

/-- The step ends a run of `aiwb2_init_thread_entry` without a pass: no
connection, no memory, or the last of the five attempts fails. -/
def runFails (d : Device) (a : Act) : Bool :=
  match d.pc, a with
  | .wait _, .outcome ok | .createResp _, .outcome ok | .cmd _ 0 _, .outcome ok => !ok
  | _, _ => false

/-- The step is an `aiwb2_netdev_set_down` that finds the netdev up and the
device not initialised. -/
def skipsDown (d : Device) (a : Act) : Bool :=
  a == .setDown && d.ready && !d.isInit && d.up

/-- Every run passes, and `aiwb2_netdev_set_down` is not called for an interface
that is up on a device that is not initialised. -/
def Passes (d : Device) (a : Act) : Prop := runFails d a = false ∧ skipsDown d a = false

instance (d : Device) (a : Act) : Decidable (Passes d a) := inferInstanceAs (Decidable (_ ∧ _))

/-- Places that follow a pass. -/
def Pc.afterPass : Pc → Bool
  | .join _ ok | .registerEnd ok => ok
  | .setInit _ _ | .statusUp _ _ | .setLink _ _ | .back _ => true
  | _ => false

/-- Places that only a run without a pass gets to. -/
def Pc.afterFailure : Pc → Bool
  | .join _ ok => !ok
  | .statusDown _ => true
  | _ => false

structure PassInv (d : Device) : Prop where
  truthful : Truthful d
  pass : d.pc.afterPass = true → d.passed = true
  noFailure : d.pc.afterFailure = false

theorem passInv_powerOn : PassInv .powerOn := by
  refine ⟨?_, ?_, ?_⟩ <;> decide

section Steps

variable {d : Device}

theorem PassInv.beginSetUp (h : PassInv d) (c : Caller) : PassInv (d.beginSetUp c) := by
  unfold Device.beginSetUp
  split_ifs with hinit hc
  · exact ⟨h.truthful, fun _ => h.truthful (.inl hinit), rfl⟩
  · exact ⟨h.truthful, nofun, rfl⟩
  · exact ⟨h.truthful, nofun, rfl⟩

theorem PassInv.cmdEnd (h : PassInv d) (c : Caller) (retryNum : Nat) (k : InitCmd) (ok : Bool)
    (hok : retryNum = 0 → ok = true) : PassInv (d.cmdEnd c retryNum k ok) := by
  unfold Device.cmdEnd
  split_ifs with hpass
  · split
    · exact ⟨h.truthful, nofun, rfl⟩
    · exact ⟨fun _ => rfl, fun _ => rfl, rfl⟩
  · split
    · exact absurd (hok rfl) hpass
    · exact ⟨h.truthful, nofun, rfl⟩

/-- Behind `AT+WJAP` of a run that passed. -/
theorem PassInv.joinEnd (h : PassInv d) {c : Caller} {ok : Bool} (hpc : d.pc = .join c ok)
    (wifiIsConn : Bool) : PassInv (d.joinEnd c ok wifiIsConn) := by
  have hok : ok = true := by
    have hnot := h.noFailure
    rw [hpc] at hnot
    simpa [Pc.afterFailure] using hnot
  rw [Device.joinEnd, if_pos hok]
  refine ⟨h.truthful, fun _ => h.pass ?_, rfl⟩
  rw [hpc, hok]
  rfl

theorem PassInv.outcome (h : PassInv d) (ok : Bool) (hrun : runFails d (.outcome ok) = false) :
    PassInv (d.outcome ok) := by
  unfold Device.outcome
  split
  · split_ifs <;> exact ⟨h.truthful, nofun, rfl⟩
  · split_ifs
    · have hadded : PassInv { d with netdev := true } := ⟨h.truthful, h.pass, h.noFailure⟩
      exact hadded.beginSetUp .register
    · exact ⟨h.truthful, nofun, rfl⟩
  · split_ifs <;> exact ⟨h.truthful, nofun, rfl⟩
  · rename_i c hpc
    have hok : ok = true := by simpa [runFails, hpc] using hrun
    rw [if_pos hok]
    exact ⟨h.truthful, nofun, rfl⟩
  · rename_i c hpc
    have hok : ok = true := by simpa [runFails, hpc] using hrun
    rw [if_pos hok]
    exact ⟨h.truthful, nofun, rfl⟩
  · rename_i c retryNum k hpc
    refine h.cmdEnd c retryNum k ok ?_
    rintro rfl
    simpa [runFails, hpc] using hrun
  · rename_i c result hpc
    have hnews : PassInv { d with joined := ok || d.joined } := ⟨h.truthful, h.pass, h.noFailure⟩
    exact hnews.joinEnd hpc ok
  · exact h

/-- A step behind a pass may set any flag. -/
theorem PassInv.goesOn {d' : Device} (h : PassInv d) (hpc : d.pc.afterPass = true)
    (hpassed : d'.passed = d.passed) (hto : d'.pc.afterFailure = false) : PassInv d' := by
  have hpass : d'.passed = true := hpassed.trans (h.pass hpc)
  exact ⟨fun _ => hpass, fun _ => hpass, hto⟩

theorem PassInv.next (h : PassInv d) : PassInv d.next := by
  unfold Device.next
  split
  · rename_i ok hpc
    refine ⟨?_, nofun, rfl⟩
    rintro (hinit | hup)
    · exact h.pass (by rw [hpc]; exact hinit)
    · exact h.truthful (.inr hup)
  · refine ⟨?_, nofun, rfl⟩
    rintro (hinit | hup)
    · exact absurd hinit (by simp)
    · exact h.truthful (.inr hup)
  · rename_i c hpc
    have hnot := h.noFailure
    rw [hpc] at hnot
    exact absurd hnot (by simp [Pc.afterFailure])
  · rename_i c conn hpc
    exact h.goesOn (by rw [hpc]; rfl) rfl rfl
  · rename_i c conn hpc
    exact h.goesOn (by rw [hpc]; rfl) rfl rfl
  · rename_i c conn hpc
    exact h.goesOn (by rw [hpc]; rfl) rfl rfl
  · rename_i hpc
    exact h.goesOn (by rw [hpc]; rfl) rfl rfl
  · rename_i hpc
    exact h.goesOn (by rw [hpc]; rfl) rfl rfl
  · rename_i hpc
    exact h.goesOn (by rw [hpc]; rfl) rfl rfl
  · exact h

theorem PassInv.urc (h : PassInv d) (data : Bytes) : PassInv (d.urc data) := by
  unfold Device.urc
  split
  · exact h
  · exact ⟨h.truthful, h.pass, h.noFailure⟩

theorem PassInv.step (h : PassInv d) (a : Act) (ha : Passes d a) : PassInv (step d a) := by
  cases a with
  | register =>
    rw [Netdev.step]
    split_ifs
    · exact ⟨h.truthful, nofun, rfl⟩
    · exact h
  | setUp =>
    rw [Netdev.step]
    split_ifs
    · exact h.beginSetUp .setUp
    · exact h
  | setDown =>
    rw [Netdev.step]
    split_ifs with hready
    · have hidle : d.pc = .idle := by
        rw [Device.ready, Bool.and_eq_true, beq_iff_eq] at hready
        exact hready.2
      rw [Device.setDown]
      split_ifs with hinit
      · exact ⟨by rw [Truthful]; simp, by rw [hidle]; exact nofun, by rw [hidle]; rfl⟩
      · -- the flag of the netdev is not cleared here, so it has to be down already
        have hdown : d.up = false := by simpa [skipsDown, hready, hinit] using ha.2
        exact ⟨by rw [Truthful]; simp [hinit, hdown], by rw [hidle]; exact nofun,
          by rw [hidle]; rfl⟩
    · exact h
  | reset =>
    rw [Netdev.step]
    split_ifs
    · exact ⟨h.truthful, nofun, rfl⟩
    · exact h
  | outcome ok => exact h.outcome ok ha.1
  | noResp =>
    rw [Netdev.step]
    split
    · rename_i c result hpc
      exact h.joinEnd hpc true
    · exact h
  | next => exact h.next
  | urc data => exact h.urc data

end Steps

/-- In every run whose runs of `aiwb2_init_thread_entry` all pass, and in which
`aiwb2_netdev_set_down` is not called for an interface that is up on a device
that is not initialised, the flags are truthful. -/
theorem init_flag_truthful (acts : List Act) (h : Along step Passes .powerOn acts) :
    Truthful (run step .powerOn acts) :=
  (run_invariant (I := PassInv) (fun _ a hd ha => hd.step a ha) acts _ passInv_powerOn h).truthful

/-- A registration whose first attempt fails at `ATE0`, and whose second
passes. -/
def registerRetry : List Act :=
  [.register, .outcome true, .outcome true, .outcome true, .outcome true, .outcome true,
    .outcome false, .outcome true, .outcome true, .outcome true, .outcome true, .outcome true,
    .next, .next, .next, .next, .next]

theorem init_flag_truthful_retry :
    (run step .powerOn registerRetry).isInit = true ∧
      Truthful (run step .powerOn registerRetry) :=
  ⟨by decide, init_flag_truthful registerRetry (by decide)⟩

/-- A registration where the module does not answer `AT`. -/
def registerNoAnswer : List Act :=
  [.register, .outcome true, .outcome true, .outcome false, .next, .next]

/-- A reset that gets no answer, and then `aiwb2_netdev_set_down`. -/
def resetThenDown : List Act := registerRetry ++ [.reset, .next, .outcome false, .setDown]

/-- Without an answer the device is marked initialised and up all the same.
After a reset without an answer, `aiwb2_netdev_set_down` leaves the interface
up. -/
theorem init_flag_wrong :
    (run step .powerOn registerNoAnswer).isInit = true ∧
      (run step .powerOn registerNoAnswer).up = true ∧
      ¬ Truthful (run step .powerOn registerNoAnswer) ∧
      ¬ Truthful (run step .powerOn resetThenDown) := by
  decide

end Hc32Board.AiWb2.Netdev
