import Hc32Board.AiWb2.Netdev

/-!
# The link flag and the events of the module

`urc_wifi_func` writes the link flag only while the device is initialised.  The
initialisation writes it once, from the reply to its own `AT+WJAP`.  Three
things can keep news of the access point from the flag.

* An event that is handled while `is_init` is clear is dropped.
* A disconnect between a successful reply and the write is overwritten.
* The reply of a run whose commands failed is not written at all.

`missedAfter` follows the events and the replies of a run, and says whether
news of this kind is still missed.  A successful reply makes up for the events
before it, and an event that reaches the flag makes up for everything before it.

`link_follows_joined`: whenever no news is missed, the link flag of an
initialised device without a call in progress shows the last news.
-/

namespace Hc32Board.AiWb2.Netdev

open Hc32Board.CodeLib

/-- Between calls, the link flag of an initialised device shows the last
news. -/
def LinkFollows (d : Device) : Prop := d.pc = .idle → d.isInit = true → d.linkUp = d.joined

instance (d : Device) : Decidable (LinkFollows d) := inferInstanceAs (Decidable (_ → _ → _))

/-! ## The news that is missed -/

/-- Places between a successful `AT+WJAP` and the write of the link flag. -/
def Pc.willSetLink : Pc → Bool
  | .setInit _ wifiIsConn | .statusUp _ wifiIsConn | .setLink _ wifiIsConn => wifiIsConn
  | _ => false

/-- Whether news is missed after a step, by whether it was before. -/
def missedAfter (d : Device) (missed : Bool) : Act → Bool
  | .urc data =>
    match wifiEvent data with
    | none => missed
    | some e =>
      -- a disconnect is overwritten, and the other events say what is written
      if d.pc.willSetLink then !e.linkUp
      else if d.isInit then false
      -- the event is dropped, which matters if it brings news
      else missed || e.linkUp != d.joined
  | .outcome ok =>
    match d.pc with
    -- a successful reply says what is written
    | .join _ true => missed && !ok
    -- the commands have failed, and nothing is written
    | .join _ false => missed || (ok && !d.joined)
    | _ => missed
  | .noResp =>
    match d.pc with
    -- the flag is set, and there is no reply that says so
    | .join _ true => !d.joined
    | _ => missed
  | _ => missed

/-- The device, with the news that is missed. -/
structure Watched where
  dev : Device
  missed : Bool

def Watched.powerOn : Watched := ⟨.powerOn, false⟩

def Watched.step (w : Watched) (a : Act) : Watched :=
  ⟨Netdev.step w.dev a, missedAfter w.dev w.missed a⟩

/-- Some news is missed at the end of a run. -/
def missedIn (acts : List Act) : Bool := (run Watched.step .powerOn acts).missed

theorem dev_run (acts : List Act) :
    (run Watched.step .powerOn acts).dev = run step .powerOn acts := by
  have hview : ∀ (w : Watched) (a : Act), True → (w.step a).dev = step w.dev a :=
    fun _ _ _ => rfl
  exact run_simulates (fun _ _ _ => trivial) hview acts .powerOn trivial

/-! ## The invariant -/

/-- The link flag shows the last news, or is going to. -/
structure Shown (d : Device) : Prop where
  pending : d.pc.willSetLink = true → d.joined = true
  written : d.pc.willSetLink = false → d.linkUp = d.joined

theorem shown_powerOn : Shown .powerOn := by
  refine ⟨?_, ?_⟩ <;> decide

section Steps

variable {d d' : Device}

theorem Shown.of_written (hpc : d.pc.willSetLink = false) (hlink : d.linkUp = d.joined) :
    Shown d :=
  ⟨fun hp => absurd (hpc.symm.trans hp) (by decide), fun _ => hlink⟩

theorem Shown.of_joined (hpc : d.pc.willSetLink = true) (hjoined : d.joined = true) : Shown d :=
  ⟨fun _ => hjoined, fun hp => absurd (hpc.symm.trans hp) (by decide)⟩

/-- A step that brings no news and leaves the flag and the place of its write. -/
theorem Shown.moves (h : Shown d) (hlink : d'.linkUp = d.linkUp) (hjoined : d'.joined = d.joined)
    (hpc : d'.pc.willSetLink = d.pc.willSetLink) : Shown d' := by
  refine ⟨fun hp => ?_, fun hp => ?_⟩
  · rw [hjoined]
    exact h.pending (hpc ▸ hp)
  · rw [hlink, hjoined]
    exact h.written (hpc ▸ hp)

theorem Shown.beginSetUp (h : Shown d) (hpc : d.pc.willSetLink = false) (c : Caller) :
    Shown (d.beginSetUp c) := by
  unfold Device.beginSetUp
  split_ifs <;> exact h.moves rfl rfl hpc.symm

/-- The end of `AT+WJAP` in a run whose commands failed. -/
theorem Shown.joinFailed (h : Shown d) {c : Caller} (hpc : d.pc = .join c false) {ok : Bool}
    (hnews : (ok && !d.joined) = false) :
    Shown ({ d with joined := ok || d.joined }.joinEnd c false ok) := by
  have hjoined : (ok || d.joined) = d.joined := by
    cases ok with
    | false => rfl
    | true => simpa using hnews
  exact h.moves rfl hjoined (by rw [hpc]; rfl)

/-- The end of `AT+WJAP` in a run whose commands passed. -/
theorem Shown.joinPassed {c : Caller} (hpc : d.pc = .join c true) {ok : Bool}
    (h : ok = false → Shown d) :
    Shown ({ d with joined := ok || d.joined }.joinEnd c true ok) := by
  cases ok with
  | false => exact (h rfl).moves rfl rfl (by rw [hpc]; rfl)
  | true => exact .of_joined rfl rfl

/-- The end of another wait, allocation or command. -/
theorem Shown.outcomeElse (h : Shown d) (hjoin : ∀ c result, d.pc ≠ .join c result) (ok : Bool) :
    Shown (d.outcome ok) := by
  unfold Device.outcome
  split
  · rename_i hpc
    refine h.moves rfl rfl ?_
    rw [hpc]
    cases ok <;> rfl
  · rename_i hpc
    have hadded : Shown { d with netdev := true } := h.moves rfl rfl rfl
    split_ifs
    · exact hadded.beginSetUp (by rw [hpc]; rfl) .register
    · exact h.moves rfl rfl (by rw [hpc]; rfl)
  · rename_i hpc
    refine h.moves rfl rfl ?_
    rw [hpc]
    cases ok <;> rfl
  · rename_i c hpc
    split_ifs <;> exact h.moves rfl rfl (by rw [hpc]; rfl)
  · rename_i c hpc
    split_ifs <;> exact h.moves rfl rfl (by rw [hpc]; rfl)
  · rename_i c retryNum k hpc
    unfold Device.cmdEnd
    split_ifs <;> split <;> exact h.moves rfl rfl (by rw [hpc]; rfl)
  · rename_i c result hpc
    exact absurd hpc (hjoin c result)
  · exact h

theorem Shown.outcome {missed : Bool} (h : missed = false → Shown d) (ok : Bool)
    (hmissed : missedAfter d missed (.outcome ok) = false) : Shown (d.outcome ok) := by
  rw [missedAfter] at hmissed
  split at hmissed
  · rename_i c hpc
    rw [Device.outcome, hpc]
    refine .joinPassed hpc fun hok => h ?_
    simpa [hok] using hmissed
  · rename_i c hpc
    obtain ⟨hno, hnews⟩ := Bool.or_eq_false_iff.mp hmissed
    rw [Device.outcome, hpc]
    exact (h hno).joinFailed hpc hnews
  · rename_i hpassed hfailed
    refine (h hmissed).outcomeElse (fun c result => ?_) ok
    cases result with
    | false => exact hfailed c
    | true => exact hpassed c

theorem Shown.next (h : Shown d) : Shown d.next := by
  unfold Device.next
  split
  · rename_i hpc
    exact h.moves rfl rfl (by rw [hpc]; rfl)
  · rename_i hpc
    exact h.moves rfl rfl (by rw [hpc]; rfl)
  · rename_i hpc
    exact h.moves rfl rfl (by rw [hpc]; rfl)
  · rename_i hpc
    exact h.moves rfl rfl (by rw [hpc]; rfl)
  · rename_i hpc
    exact h.moves rfl rfl (by rw [hpc]; rfl)
  · -- the write of the link flag
    rename_i c conn hpc
    cases conn with
    | false => exact h.moves rfl rfl (by rw [hpc]; rfl)
    | true => exact .of_written rfl (h.pending (by rw [hpc]; rfl)).symm
  · rename_i hpc
    exact h.moves rfl rfl (by rw [hpc]; rfl)
  · rename_i hpc
    exact h.moves rfl rfl (by rw [hpc]; rfl)
  · rename_i hpc
    exact h.moves rfl rfl (by rw [hpc]; rfl)
  · exact h

theorem Shown.urc {missed : Bool} (h : missed = false → Shown d) (data : Bytes)
    (hmissed : missedAfter d missed (.urc data) = false) : Shown (d.urc data) := by
  unfold Device.urc
  rw [missedAfter] at hmissed
  cases hevent : wifiEvent data with
  | none =>
    rw [hevent] at hmissed
    exact h hmissed
  | some e =>
    rw [hevent] at hmissed
    dsimp only at hmissed
    split_ifs at hmissed with hpending hinit
    · exact .of_joined hpending (by simpa using hmissed)
    · exact .of_written (by simpa using hpending) (if_pos hinit)
    · -- the event is dropped, and repeats the last news
      obtain ⟨hno, hsame⟩ := Bool.or_eq_false_iff.mp hmissed
      refine (h hno).moves (if_neg hinit) ?_ rfl
      simpa using hsame

theorem Shown.noResp {missed : Bool} (h : missed = false → Shown d)
    (hmissed : missedAfter d missed .noResp = false) : Shown (Netdev.step d .noResp) := by
  rw [Netdev.step]
  rw [missedAfter] at hmissed
  split at hmissed
  · rename_i c hpc
    have hjoined : d.joined = true := by simpa using hmissed
    rw [hpc]
    exact .of_joined rfl hjoined
  · rename_i hnot
    split
    · rename_i c result hpc
      cases result with
      | false => exact (h hmissed).moves rfl rfl (by rw [hpc]; rfl)
      | true => exact absurd hpc (hnot c)
    · exact h hmissed

theorem willSetLink_of_ready (hready : d.ready = true) : d.pc.willSetLink = false := by
  rw [Device.ready, Bool.and_eq_true, beq_iff_eq] at hready
  rw [hready.2]
  rfl

theorem Shown.step {missed : Bool} (h : missed = false → Shown d) (a : Act)
    (hmissed : missedAfter d missed a = false) : Shown (step d a) := by
  cases a with
  | outcome ok => exact .outcome h ok hmissed
  | urc data => exact .urc h data hmissed
  | noResp => exact .noResp h hmissed
  | next => exact (h hmissed).next
  | register =>
    rw [Netdev.step]
    split_ifs with hpc
    · exact (h hmissed).moves rfl rfl (by rw [hpc]; rfl)
    · exact h hmissed
  | setUp =>
    rw [Netdev.step]
    split_ifs with hready
    · exact (h hmissed).beginSetUp (willSetLink_of_ready hready) .setUp
    · exact h hmissed
  | setDown =>
    rw [Netdev.step, Device.setDown]
    split_ifs
    · exact (h hmissed).moves rfl rfl rfl
    · exact (h hmissed).moves rfl rfl rfl
    · exact h hmissed
  | reset =>
    rw [Netdev.step]
    split_ifs with hready
    · exact (h hmissed).moves rfl rfl (willSetLink_of_ready hready).symm
    · exact h hmissed

end Steps

/-- In every run, the link flag of an initialised device shows the last news
whenever no call is in progress and no news is missed. -/
theorem link_follows_joined (acts : List Act) (h : missedIn acts = false) :
    LinkFollows (run step .powerOn acts) := by
  have hstep : ∀ (w : Watched) (a : Act), (w.missed = false → Shown w.dev) →
      (w.step a).missed = false → Shown (w.step a).dev :=
    fun _ a hw => Shown.step hw a
  have hinv := run_invariant' hstep acts .powerOn fun _ => shown_powerOn
  intro hpc _
  have hshown := hinv h
  rw [dev_run] at hshown
  exact hshown.written (by rw [hpc]; rfl)

/-- A registration up to `AT+WJAP`. -/
def registerPass : List Act :=
  [.register, .outcome true, .outcome true, .outcome true, .outcome true, .outcome true,
    .outcome true, .outcome true, .outcome true]

/-- The statements behind `AT+WJAP`. -/
def registerFlags : List Act := [.next, .next, .next, .next, .next]

/-- The event of the join comes before the reply, and a disconnect after the
registration. -/
def joinThenLeave : List Act :=
  registerPass ++ [.urc (ascii "+EVENT:WIFI_CONNECT\r\n"), .outcome true] ++ registerFlags ++
    [.urc (ascii "+EVENT:WIFI_DISCONNECT\r\n")]

theorem link_follows_joined_run :
    (run step .powerOn joinThenLeave).pc = .idle ∧
      (run step .powerOn joinThenLeave).isInit = true ∧ missedIn joinThenLeave = false ∧
      LinkFollows (run step .powerOn joinThenLeave) := by
  have hmissed : missedIn joinThenLeave = false := by decide +kernel
  exact ⟨by decide +kernel, by decide +kernel, hmissed, link_follows_joined joinThenLeave hmissed⟩

/-- The module leaves the access point after the reply to `AT+WJAP`, and before
the link flag is written. -/
def leaveInWindow : List Act :=
  registerPass ++ [.outcome true, .urc (ascii "+EVENT:WIFI_DISCONNECT\r\n")] ++ registerFlags

/-- The module joins during the initialisation, and the reply to `AT+WJAP` times
out. -/
def joinDropped : List Act :=
  registerPass ++ [.urc (ascii "+EVENT:WIFI_CONNECT\r\n"), .outcome false] ++ registerFlags

/-- The link flag stays up although the module has left, and stays down although
it has joined. -/
theorem link_flag_wrong :
    (run step .powerOn leaveInWindow).linkUp = true ∧
      (run step .powerOn leaveInWindow).joined = false ∧
      (run step .powerOn joinDropped).linkUp = false ∧
      (run step .powerOn joinDropped).joined = true ∧
      ¬ LinkFollows (run step .powerOn leaveInWindow) ∧
      ¬ LinkFollows (run step .powerOn joinDropped) := by
  decide +kernel

end Hc32Board.AiWb2.Netdev
