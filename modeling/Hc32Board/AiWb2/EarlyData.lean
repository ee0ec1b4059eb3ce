import Hc32Board.AiWb2.ConId
import Hc32Board.AtClient.Response

/-!
# Data that comes before the connect has returned

`aiwb2_socket_connect` with the parser thread of the AT client between its
steps.  The connecting thread sends `AT+SOCKET` and sleeps in
`at_obj_exec_cmd`.  The parser collects the lines of the reply and wakes the
thread with the `OK`.  Only then does the thread parse the lines and store the
ConID in `user_data`.

From the `OK` to that store the connection is up and the slot still holds its
index.  A `+EVENT:SocketDown` that the parser handles there does not find the
slot.

`early_data_iff`: every `+EVENT:SocketDown` of a connection that the reply has
confirmed reaches the connecting slot, exactly if none is handled between the
end of the reply and the store.

The lock of the client lets one exchange at a time through.  The exchanges of
the other commands are left out: they leave the slots alone.
-/

namespace Hc32Board.AiWb2

open Hc32Board.CodeLib
open Hc32Board.AtClient

/-! ## The exchange of a connect -/

/-- `at_obj_exec_cmd` for the `AT+SOCKET` of slot `i`. -/
inductive Exchange where
  | idle
  /-- `client->resp` is set, and the thread sleeps. -/
  | waiting (i : Nat) (resp : Resp) (status : RespStatus)
  /-- The parser has released `resp_notice`, and the thread has not gone on. -/
  | answered (i : Nat) (resp : Resp) (status : RespStatus)
deriving DecidableEq

/-- The slot that the exchange is for. -/
def Exchange.slot : Exchange → Option Nat
  | .idle => none
  | .waiting i _ _ | .answered i _ _ => some i

structure Client where
  slots : List Channel
  /-- The result of the first attempt of the connect of a slot, while it is
  retried. -/
  firstTry : Nat → Option (Option (List Bytes))
  exchange : Exchange

inductive ClientAct where
  /-- A step on the slots other than the end of a connect. -/
  | slots (a : Act)
  /-- A connect without memory for its response. -/
  | noResp (i : Nat)
  /-- A connecting thread takes the lock of the client and sends `AT+SOCKET`. -/
  | exec (i : Nat)
  /-- The parser handles a line that is not an event. -/
  | line (endSign : UInt8) (line : Bytes)
  /-- The wait for the response times out. -/
  | timeout
  /-- The connecting thread goes on. -/
  | resume

def Act.isConnectEnd : Act → Bool
  | .call _ (.connectEnd _) => true
  | _ => false

/-- A connect is in progress on slot `i`. -/
def connectingAt (d : List Channel) (i : Nat) : Bool :=
  (d[i]?.map fun c => c.busy == .connecting).getD false

/-- `con_id` of the connect of slot `i`. -/
def conIdAt (d : List Channel) (i : Nat) : Nat := (d[i]?.map fun c => reservedConId c.sock).getD 0

/-- The connect of slot `i` ends. -/
def Client.connectEnd (s : Client) (i : Nat) (e : ConnectEnv) : Client :=
  { s with
    slots := step s.slots (.call i (.connectEnd e))
    firstTry := Function.update s.firstTry i none }

/-- `aiwb2_socket_connect` behind `at_obj_exec_cmd`.  `r` has the lines of the
response, or is `none` if the command failed. -/
def Client.attemptEnd (s : Client) (i : Nat) (r : Option (List Bytes)) : Client :=
  match s.firstTry i with
  | some first => s.connectEnd i ⟨true, first, r⟩
  | none =>
    if attemptOk (conIdAt s.slots i) r then s.connectEnd i ⟨true, r, none⟩
    else { s with firstTry := Function.update s.firstTry i (some r) }

/-- `client->resp` is cleared, and the lock of the client is released. -/
def Client.release (s : Client) : Client := { s with exchange := .idle }

/-- The size of the response of a connect. -/
def connectRespSize : Nat := 128

def clientStep (s : Client) : ClientAct → Client
  | .slots a => if a.isConnectEnd then s else { s with slots := step s.slots a }
  | .noResp i =>
    if connectingAt s.slots i && (s.firstTry i).isNone && s.exchange.slot != some i then
      s.connectEnd i ⟨false, none, none⟩
    else s
  | .exec i =>
    if s.exchange = .idle && connectingAt s.slots i then
      { s with exchange := .waiting i (atCreateResp connectRespSize 0) .ok }
    else s
  | .line endSign line =>
    match s.exchange with
    | .waiting i resp status =>
      let h := handleLine endSign status resp line
      { s with
        exchange := if h.ended then .answered i h.resp h.status else .waiting i h.resp h.status }
    | _ => s
  | .timeout =>
    match s.exchange with
    | .waiting i _ _ => s.release.attemptEnd i none
    | _ => s
  | .resume =>
    match s.exchange with
    | .answered i resp status =>
      s.release.attemptEnd i
        (if status = .ok then some (respLines resp.lineCounts resp.buf) else none)
    | _ => s

def clientStart (socketNum : Nat) : Client := ⟨start socketNum, fun _ => none, .idle⟩

/-! ## Confirmed connections -/

/-- The reply to the `AT+SOCKET` of slot `i` is complete and confirms its ConID,
and the ConID is not stored yet. -/
def Client.confirmedAt (s : Client) (i : Nat) : Bool :=
  match s.exchange with
  | .answered j resp status =>
    j == i && status == .ok && attemptOk (i + 1) (some (respLines resp.lineCounts resp.buf))
  | _ => false

/-- The connection of slot `i` is up: its reply has confirmed it. -/
def Client.upAt (s : Client) (i : Nat) : Bool := s.confirmedAt i || connectedAt s.slots i

/-- An event with data for a ConID. -/
def ClientAct.dataFor : ClientAct → Option Int
  | .slots (.socketDown n _ _ _) => some n
  | _ => none

/-- Data of a connection that is up is handed to the slot of the connection. -/
def NoEarlyLoss (s : Client) (a : ClientAct) : Prop :=
  ∀ n : Nat, a.dataFor = some (n : Int) → 0 < n → s.upAt (n - 1) = true →
    aiwb2FindSocket (sockets s.slots) n = some (n - 1)

/-- No data of a connection comes between its reply and the store of its
ConID. -/
def NotInWindow (s : Client) (a : ClientAct) : Prop :=
  ∀ n : Nat, a.dataFor = some (n : Int) → 0 < n → s.confirmedAt (n - 1) = false

/-! ## The invariant -/

/-- An exchange is for a slot with a connect in progress. -/
structure ClientInv (s : Client) : Prop where
  owned : AllOwned s.slots
  connecting : ∀ i, s.exchange.slot = some i → connectingAt s.slots i = true

theorem connectingAt_iff {d : List Channel} {i : Nat} :
    connectingAt d i = true ↔ ∃ c, d[i]? = some c ∧ c.busy = .connecting := by
  unfold connectingAt
  cases d[i]? with
  | none => simp
  | some c => simp

/-- A slot with a connect in progress is not connected. -/
theorem not_connected_of_connecting {d : List Channel} (h : AllOwned d) {i : Nat}
    (hconn : connectingAt d i = true) : connectedAt d i = false := by
  obtain ⟨c, hc, hb⟩ := connectingAt_iff.mp hconn
  rw [connectedAt, hc]
  exact ((h i c hc).connecting hb).2

theorem Channel.call_connecting {c : Channel} (hb : c.busy = .connecting) {a : Call}
    (ha : ∀ e, a ≠ .connectEnd e) : (c.call a).busy = .connecting := by
  cases a with
  | connectEnd e => exact absurd rfl (ha e)
  | connectBegin => simp [Channel.call, Channel.ready, hb]
  | connectReturn => simp [Channel.call, hb]
  | sendto size turns => exact hb
  | closeBegin respOk => simp [Channel.call, Channel.closable, Channel.ready, hb]
  | closeEnd => simp [Channel.call, hb]

theorem Channel.notice_busy (c : Channel) (e : Notice) : (c.notice e).busy = c.busy := by
  cases e <;> rfl

/-- A change of one slot that keeps a connect in progress. -/
theorem connectingAt_modify {d : List Channel} {i j : Nat} {f : Channel → Channel}
    (h : connectingAt d i = true)
    (hf : ∀ c : Channel, c.busy = .connecting → (f c).busy = .connecting) :
    connectingAt (d.modify j f) i = true := by
  obtain ⟨c, hc, hb⟩ := connectingAt_iff.mp h
  refine connectingAt_iff.mpr ⟨if j = i then f c else c, ?_, ?_⟩
  · rw [List.getElem?_modify, hc]
    rfl
  · split_ifs
    · exact hf c hb
    · exact hb

/-- A slot that `at_socket` takes is free. -/
theorem freeSlot_free {d : List Channel} {i : Nat} {c : Channel} (h : freeSlot (sockets d) = some i)
    (hc : d[i]? = some c) : c.sock.magic = false := by
  rw [freeSlot, List.findIdx?_eq_some_iff_getElem] at h
  obtain ⟨hlt, hfree, -⟩ := h
  obtain ⟨_, rfl⟩ := List.getElem?_eq_some_iff.mp hc
  simpa [sockets] using hfree

/-- Only its own end ends a connect. -/
theorem connectingAt_step {d : List Channel} (h : AllOwned d) {a : Act} {i : Nat}
    (ha : a.isConnectEnd = false) (hconn : connectingAt d i = true) :
    connectingAt (step d a) i = true := by
  have hdeliver : ∀ n e, connectingAt (deliver d n e) i = true := by
    intro n e
    unfold deliver
    split
    · exact connectingAt_modify hconn fun c hb => (c.notice_busy e).trans hb
    · exact hconn
  cases a with
  | socket type ok =>
    rw [step]
    split_ifs
    · exact hconn
    · split
      · rename_i j hj
        obtain ⟨c, hc, hb⟩ := connectingAt_iff.mp hconn
        have hne : j ≠ i := by
          rintro rfl
          have hfree := freeSlot_free hj hc
          rw [((h j c hc).connecting hb).1] at hfree
          cases hfree
        exact connectingAt_iff.mpr ⟨c, by rw [List.getElem?_set_ne hne, hc], hb⟩
      · exact hconn
  | call j b =>
    refine connectingAt_modify hconn fun c hb => Channel.call_connecting hb ?_
    rintro e rfl
    cases ha
  | recvfrom j mem len => exact connectingAt_modify hconn fun _ hb => hb
  | socketDown n off payload memOk => exact hdeliver n _
  | socketDisconnect n => exact hdeliver n _

/-- The end of the connect of another slot. -/
theorem connectingAt_connectEnd_ne {d : List Channel} {i j : Nat} {e : ConnectEnv} (hne : j ≠ i)
    (h : connectingAt d i = true) : connectingAt (step d (.call j (.connectEnd e))) i = true := by
  obtain ⟨c, hc, hb⟩ := connectingAt_iff.mp h
  refine connectingAt_iff.mpr ⟨c, ?_, hb⟩
  rw [step, List.getElem?_modify, hc]
  simp [hne]

theorem ClientInv.connectEnd_owned {s : Client} (h : ClientInv s) (i : Nat) (e : ConnectEnv) :
    AllOwned (s.connectEnd i e).slots :=
  h.owned.step (.call i (.connectEnd e))

/-- Behind `at_obj_exec_cmd` the exchange is over. -/
theorem ClientInv.attemptEnd {s : Client} (h : ClientInv s) (i : Nat) (r : Option (List Bytes)) :
    ClientInv (s.release.attemptEnd i r) := by
  have hreleased : ClientInv s.release := ⟨h.owned, nofun⟩
  unfold Client.attemptEnd
  split
  · exact ⟨hreleased.connectEnd_owned i _, nofun⟩
  · split_ifs
    · exact ⟨hreleased.connectEnd_owned i _, nofun⟩
    · exact ⟨h.owned, nofun⟩

theorem ClientInv.step {s : Client} (h : ClientInv s) (a : ClientAct) :
    ClientInv (clientStep s a) := by
  cases a with
  | slots a =>
    rw [clientStep]
    split_ifs with ha
    · exact h
    · have hother : a.isConnectEnd = false := by simpa using ha
      exact ⟨h.owned.step a, fun i hi => connectingAt_step h.owned hother (h.connecting i hi)⟩
  | noResp i =>
    rw [clientStep]
    split_ifs with hcond
    · simp only [Bool.and_eq_true, bne_iff_ne] at hcond
      refine ⟨h.connectEnd_owned i _, fun j hj => connectingAt_connectEnd_ne ?_ (h.connecting j hj)⟩
      rintro rfl
      exact hcond.2 hj
    · exact h
  | exec i =>
    rw [clientStep]
    split_ifs with hcond
    · simp only [Bool.and_eq_true] at hcond
      refine ⟨h.owned, fun j hj => ?_⟩
      obtain rfl := Option.some.inj hj
      exact hcond.2
    · exact h
  | line endSign line =>
    rw [clientStep]
    split
    · rename_i i resp status hex
      have hconn := h.connecting i (by rw [hex]; rfl)
      refine ⟨h.owned, fun j hj => ?_⟩
      dsimp only at hj ⊢
      split_ifs at hj <;> obtain rfl := Option.some.inj hj <;> exact hconn
    · exact h
  | timeout =>
    rw [clientStep]
    split
    · exact h.attemptEnd _ _
    · exact h
  | resume =>
    rw [clientStep]
    split
    · exact h.attemptEnd _ _
    · exact h

theorem clientInv_start (socketNum : Nat) : ClientInv (clientStart socketNum) :=
  ⟨allOwned_start socketNum, nofun⟩

/-! ## Early data -/

theorem ClientInv.connecting_of_confirmed {s : Client} (h : ClientInv s) {i : Nat}
    (hconf : s.confirmedAt i = true) : connectingAt s.slots i = true := by
  unfold Client.confirmedAt at hconf
  split at hconf
  · rename_i j resp status hex
    simp only [Bool.and_eq_true, beq_iff_eq] at hconf
    obtain rfl := hconf.1.1
    exact h.connecting j (by rw [hex]; rfl)
  · cases hconf

/-- Between the reply and the store, data for the connection misses its slot. -/
theorem ClientInv.find_ne_of_confirmed {s : Client} (h : ClientInv s) {n : Nat} (hn : 0 < n)
    (hconf : s.confirmedAt (n - 1) = true) :
    aiwb2FindSocket (sockets s.slots) n ≠ some (n - 1) := by
  have hconn := not_connected_of_connecting h.owned (h.connecting_of_confirmed hconf)
  cases hpend : pendingAt s.slots n with
  | true =>
    rw [find_pending h.owned hn hconn hpend]
    intro heq
    have := Option.some.inj heq
    omega
  | false =>
    rw [find_none h.owned hn hconn hpend]
    exact nofun

theorem ClientInv.noEarlyLoss_iff {s : Client} (h : ClientInv s) (a : ClientAct) :
    NoEarlyLoss s a ↔ NotInWindow s a := by
  constructor
  · intro hloss n ha hn
    by_contra hne
    have hconf : s.confirmedAt (n - 1) = true := by simpa using hne
    have hup : s.upAt (n - 1) = true := by rw [Client.upAt, hconf, Bool.true_or]
    exact h.find_ne_of_confirmed hn hconf (hloss n ha hn hup)
  · intro hwindow n ha hn hup
    rw [Client.upAt, hwindow n ha hn, Bool.false_or] at hup
    exact find_connected h.owned hn hup

/-- A connect whose module confirmed the ConID leaves its slot connected. -/
theorem connectedAt_connectEnd {d : List Channel} {i : Nat} {c : Channel} (hc : d[i]? = some c)
    (hb : c.busy = .connecting) {e : ConnectEnv} (hok : aiwb2SocketConnect c.sock e = true) :
    connectedAt (step d (.call i (.connectEnd e))) i = true := by
  rw [step, connectedAt, List.getElem?_modify, hc]
  simp [Channel.call, hb, hok]

/-- In the window the connect is as good as done: when its thread goes on, the
slot is connected. -/
theorem ClientInv.resume_connects {s : Client} (h : ClientInv s) {i : Nat}
    (hconf : s.confirmedAt i = true) : connectedAt (clientStep s .resume).slots i = true := by
  obtain ⟨c, hc, hb⟩ := connectingAt_iff.mp (h.connecting_of_confirmed hconf)
  have hidx : reservedConId c.sock = i + 1 := by
    obtain ⟨hmagic, hun⟩ := (h.owned i c hc).connecting hb
    rw [reservedConId, (h.owned i c hc).userData hmagic, hun]
    rfl
  unfold Client.confirmedAt at hconf
  rw [clientStep]
  split at hconf
  · rename_i j resp status hex
    simp only [Bool.and_eq_true, beq_iff_eq] at hconf
    obtain ⟨⟨rfl, rfl⟩, hok⟩ := hconf
    rw [← hidx] at hok
    rw [if_pos rfl]
    unfold Client.attemptEnd
    split
    · -- the retry was confirmed
      exact connectedAt_connectEnd hc hb (by simp [aiwb2SocketConnect, hok])
    · have hat : conIdAt s.release.slots j = reservedConId c.sock := by
        show conIdAt s.slots j = _
        rw [conIdAt, hc]
        rfl
      rw [hat, if_pos hok]
      exact connectedAt_connectEnd hc hb (by simp [aiwb2SocketConnect, hok])
  · cases hconf

/-- In every interleaving of connects, the other calls and the parser, a
connection that its reply has confirmed ends up connected, and its data reaches
its slot exactly if none of it is handled between the end of the reply and the
store of the ConID. -/
theorem early_data_iff (socketNum : Nat) (acts : List ClientAct) :
    Along clientStep (fun s a => ∀ i, a = .resume → s.confirmedAt i = true →
        connectedAt (clientStep s a).slots i = true) (clientStart socketNum) acts ∧
      (Along clientStep NoEarlyLoss (clientStart socketNum) acts ↔
        Along clientStep NotInWindow (clientStart socketNum) acts) := by
  have hstart := clientInv_start socketNum
  constructor
  · rw [along_iff (I := ClientInv) (Q := fun _ _ => True) (fun _ a h => h.step a) ?_ acts _ hstart]
    · exact along_of_forall (fun _ _ => trivial) acts _
    · intro s a hs
      refine ⟨fun _ => trivial, fun _ i ha hconf => ?_⟩
      rw [ha]
      exact hs.resume_connects hconf
  · exact along_iff (fun _ a h => h.step a) (fun _ a h => h.noEarlyLoss_iff a) acts _ hstart

/-- Slot 0 connects up to the `OK` of the reply.  The thread has not gone on. -/
def connectReply : List ClientAct :=
  [.slots (.call 0 .connectBegin), .exec 0, .line 0 (ascii "connect success ConID=1\r\n"),
    .line 0 (ascii "OK\r\n")]

/-- A peer that speaks first. -/
def greeting : ClientAct := .slots (.socketDown 1 22 (ascii "hello") true)

/-- Data right behind the `OK` is dropped, although the connect succeeds.  With
slot 1 open it is queued there. -/
theorem early_data_lost :
    let one := .slots (.socket .tcp true) :: connectReply
    let two := .slots (.socket .tcp true) :: one
    (run clientStep (clientStart 5) one).upAt 0 = true ∧
      ((run clientStep (clientStart 5) (one ++ [greeting, .resume])).slots[0]?.map fun c =>
        (c.connected, c.accepted)) = some (true, []) ∧
      ((run clientStep (clientStart 5) (two ++ [greeting, .resume])).slots[0]?.map fun c =>
        (c.connected, c.accepted)) = some (true, []) ∧
      ((run clientStep (clientStart 5) (two ++ [greeting, .resume])).slots[1]?.map
        Channel.accepted) = some (ascii "hello") ∧
      ¬ NoEarlyLoss (run clientStep (clientStart 5) one) greeting := by
  refine ⟨by decide, by decide, by decide, by decide, fun h => ?_⟩
  have hfind := h 1 rfl (by decide) (by decide)
  exact absurd hfind (by decide)

end Hc32Board.AiWb2
