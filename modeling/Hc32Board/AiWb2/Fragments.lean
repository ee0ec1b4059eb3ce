import Hc32Board.AiWb2.SendMachine
import Hc32Board.RtThread.Errno

/-!
# The chunks of a send

`aiwb2_socket_send` as a sequential function, against every pattern of outcomes
of what it calls.  The result is the list of its calls, in their order, with the
value that it returns.

`send_fragments` says which chunks are passed to `at_client_obj_send`: they
start at the front of the buffer, follow each other without a gap, and each has
its own `AT+SOCKETSEND`.  The loop ends because a chunk is never empty, and
every way out of it leads through the same clean-up.

How the outcomes come about, with the parser running beside the send, is in
`SendMachine`.  The functions that are called here take and release the client
lock as well, in pairs; the lock is recursive and these pairs are left out.
-/

namespace Hc32Board.AiWb2

open Hc32Board.RtThread

/-! ## The function -/

/-- The value of an error code. -/
def Rc.code : Rc → Int
  | .eok => 0
  | .error => -rtError
  | .timeout => -rtETimeout
  | .nomem => -rtENoMem

/-- The outcomes of one turn of the loop. -/
structure SendTurn where
  /-- `at_create_resp` has memory. -/
  respOk : Bool
  /-- `at_obj_exec_cmd` does not fail. -/
  cmdOk : Bool
  /-- What `at_client_obj_send` returns. -/
  dataLen : Nat
  /-- What `aiwb2_send_wait` returns. -/
  wait : Rc
deriving DecidableEq, Repr

/-- A call of `aiwb2_socket_send`. -/
inductive SendEvent where
  /-- `rt_mutex_take(lock)`. -/
  | take
  /-- `rt_mutex_release(lock)`. -/
  | release
  /-- `at_obj_set_end_sign`. -/
  | setEndSign (ch : UInt8)
  /-- `at_obj_exec_cmd`. -/
  | exec (c : Command)
  /-- `at_client_obj_send(client, buff + off, len)`. -/
  | data (off len : Nat)
  /-- `aiwb2_send_wait`. -/
  | sendWait
deriving DecidableEq, Repr

/-- The loop: its calls, `result`, and `sent_size` behind it. -/
structure LoopEnd where
  events : List SendEvent
  result : Int
  sentSize : Nat
deriving DecidableEq, Repr

/-- The loop of `aiwb2_socket_send`, from turn `n` on. -/
def sendLoop (conId bfsz : Nat) (turn : Nat → SendTurn) (n sentSize : Nat) : LoopEnd :=
  if sentSize < bfsz then
    let cmd := .exec (.socketSend conId (curPktSize bfsz sentSize))
    let data := .data sentSize (curPktSize bfsz sentSize)
    if !(turn n).respOk then ⟨[], Rc.nomem.code, sentSize⟩
    else if !(turn n).cmdOk then ⟨[cmd], Rc.error.code, sentSize⟩
    else if (turn n).dataLen = 0 then ⟨[cmd, data], Rc.error.code, sentSize⟩
    else if (turn n).wait ≠ .eok then ⟨[cmd, data, .sendWait], (turn n).wait.code, sentSize⟩
    else
      let rest := sendLoop conId bfsz turn (n + 1) (sentSize + curPktSize bfsz sentSize)
      { rest with events := cmd :: data :: .sendWait :: rest.events }
  else ⟨[], toInt sentSize, sentSize⟩
termination_by bfsz - sentSize
decreasing_by
  have hpos := curPktSize_pos (by assumption : sentSize < bfsz)
  omega

/-- The calls and the result of `aiwb2_socket_send`. -/
structure SendEnd where
  events : List SendEvent
  ret : Int
deriving DecidableEq, Repr

/-- `aiwb2_socket_send`. -/
def aiwb2SocketSend (conId bfsz : Nat) (turn : Nat → SendTurn) : SendEnd :=
  let r := sendLoop conId bfsz turn 0 0
  ⟨.take :: .setEndSign 62 :: (r.events ++ [.setEndSign 0, .release]),
    if 0 < r.result then toInt r.sentSize else r.result⟩

/-! ## Chunks -/

/-- The chunks passed to `at_client_obj_send`, with their offsets. -/
def dataChunks (events : List SendEvent) : List (Nat × Nat) :=
  events.filterMap fun
    | .data off len => some (off, len)
    | _ => none

/-- Each chunk starts where the one before it ends. -/
def Consecutive : Nat → List (Nat × Nat) → Prop
  | _, [] => True
  | off, c :: cs => c.1 = off ∧ Consecutive (off + c.2) cs

/-- The number of bytes in the chunks. -/
def covered (chunks : List (Nat × Nat)) : Nat := (chunks.map Prod.snd).sum

/-- The command for a chunk, and the chunk. -/
def announced (conId : Nat) (c : Nat × Nat) : List SendEvent :=
  [.exec (.socketSend conId c.2), .data c.1 c.2]

/-- Commands and chunks. -/
def SendEvent.isTransfer : SendEvent → Bool
  | .exec _ | .data _ _ => true
  | _ => false

/-- Every chunk has its own command before it.  At the end there may be a
command whose chunk was not sent. -/
def Announced (conId : Nat) (events : List SendEvent) : Prop :=
  ∃ last, events.filter (·.isTransfer) = (dataChunks events).flatMap (announced conId) ++ last ∧
    (last = [] ∨ ∃ len, last = [.exec (.socketSend conId len)])

/-- All outcomes of a turn are good. -/
def SendTurn.ok (t : SendTurn) : Bool :=
  t.respOk && t.cmdOk && t.dataLen != 0 && t.wait == .eok

/-- The turns that a buffer of this size takes. -/
def turnsFor (size : Nat) : Nat := (size + 1023) / 1024

/-- Every step of the send succeeds. -/
def AllOk (turn : Nat → SendTurn) (n size : Nat) : Prop :=
  ∀ i < turnsFor size, (turn (n + i)).ok = true

theorem AllOk.first {turn : Nat → SendTurn} {n size : Nat} (h : AllOk turn n size)
    (hpos : 0 < size) : (turn n).ok = true :=
  h 0 (by unfold turnsFor; omega)

/-- The steps of a send are those of its first turn and those of the rest. -/
theorem allOk_iff {bfsz sentSize : Nat} (h : sentSize < bfsz) (turn : Nat → SendTurn) (n : Nat) :
    AllOk turn n (bfsz - sentSize) ↔ (turn n).ok = true ∧
      AllOk turn (n + 1) (bfsz - (sentSize + curPktSize bfsz sentSize)) := by
  have hturns : turnsFor (bfsz - sentSize) =
      turnsFor (bfsz - (sentSize + curPktSize bfsz sentSize)) + 1 := by
    unfold turnsFor curPktSize moduleSendMaxSize
    split_ifs <;> omega
  refine ⟨fun hall => ⟨hall.first (by omega), fun i hi => ?_⟩, fun hall i hi => ?_⟩
  · rw [show n + 1 + i = n + (i + 1) by omega]
    exact hall (i + 1) (by omega)
  · cases i with
    | zero => exact hall.1
    | succ i =>
      rw [show n + (i + 1) = n + 1 + i by omega]
      exact hall.2 i (by omega)

/-! ## The calls of the loop -/

/-- The calls of the loop from `sentSize` on. -/
structure Shape (conId bfsz sentSize : Nat) (events : List SendEvent) : Prop where
  consecutive : Consecutive sentSize (dataChunks events)
  sizes : ∀ c ∈ dataChunks events, 1 ≤ c.2 ∧ c.2 ≤ moduleSendMaxSize
  covered_le : sentSize + covered (dataChunks events) ≤ bfsz
  announced : Announced conId events
  inner : ∀ e ∈ events, e = .sendWait ∨ e.isTransfer = true

section Calls

variable {conId bfsz sentSize : Nat} {events : List SendEvent}

theorem Shape.nil (h : sentSize ≤ bfsz) : Shape conId bfsz sentSize [] where
  consecutive := trivial
  sizes := fun _ hc => absurd hc List.not_mem_nil
  covered_le := h
  announced := ⟨[], rfl, .inl rfl⟩
  inner := fun _ he => absurd he List.not_mem_nil

/-- A command whose chunk is not sent. -/
theorem Shape.exec (h : sentSize ≤ bfsz) (len : Nat) :
    Shape conId bfsz sentSize [.exec (.socketSend conId len)] where
  consecutive := trivial
  sizes := fun _ hc => absurd hc List.not_mem_nil
  covered_le := h
  announced := ⟨[.exec (.socketSend conId len)], rfl, .inr ⟨len, rfl⟩⟩
  inner := fun _ he => by
    rw [List.mem_singleton.mp he]
    exact .inr rfl

theorem Shape.wait (h : Shape conId bfsz sentSize events) :
    Shape conId bfsz sentSize (.sendWait :: events) where
  consecutive := h.consecutive
  sizes := h.sizes
  covered_le := h.covered_le
  announced := h.announced
  inner := fun e he => by
    rcases List.mem_cons.mp he with rfl | he
    · exact .inl rfl
    · exact h.inner e he

/-- A chunk with its command, and what follows. -/
theorem Shape.chunk (hlt : sentSize < bfsz)
    (h : Shape conId bfsz (sentSize + curPktSize bfsz sentSize) events) :
    Shape conId bfsz sentSize (.exec (.socketSend conId (curPktSize bfsz sentSize)) ::
      .data sentSize (curPktSize bfsz sentSize) :: events) where
  consecutive := ⟨rfl, h.consecutive⟩
  sizes := fun c hc => by
    rcases List.mem_cons.mp hc with rfl | hc
    · exact ⟨curPktSize_pos hlt, curPktSize_le_max bfsz sentSize⟩
    · exact h.sizes c hc
  covered_le := by
    have hle := h.covered_le
    have hsum : covered (dataChunks (.exec (.socketSend conId (curPktSize bfsz sentSize)) ::
        .data sentSize (curPktSize bfsz sentSize) :: events)) =
        curPktSize bfsz sentSize + covered (dataChunks events) := List.sum_cons
    omega
  announced := by
    obtain ⟨last, hlast, hend⟩ := h.announced
    refine ⟨last, ?_, hend⟩
    show _ :: _ :: events.filter (·.isTransfer) = _ :: _ :: (_ ++ last)
    rw [hlast]
    rfl
  inner := fun e he => by
    rcases List.mem_cons.mp he with rfl | he
    · exact .inr rfl
    · rcases List.mem_cons.mp he with rfl | he
      · exact .inr rfl
      · exact h.inner e he

end Calls

theorem add_curPktSize_le {bfsz sentSize : Nat} (h : sentSize ≤ bfsz) :
    sentSize + curPktSize bfsz sentSize ≤ bfsz := by
  have hle := curPktSize_le bfsz sentSize
  omega

theorem sendLoop_shape (conId bfsz : Nat) (turn : Nat → SendTurn) (n sentSize : Nat)
    (hle : sentSize ≤ bfsz) :
    Shape conId bfsz sentSize (sendLoop conId bfsz turn n sentSize).events := by
  -- one case for each way out of a turn, then the next turn, then the end
  fun_induction sendLoop conId bfsz turn n sentSize with
  | case1 n sentSize hlt => exact .nil hle
  | case2 n sentSize hlt => exact .exec hle _
  | case3 n sentSize hlt => exact .chunk hlt (.nil (add_curPktSize_le hle))
  | case4 n sentSize hlt => exact .chunk hlt (.wait (.nil (add_curPktSize_le hle)))
  | case5 n sentSize hlt _ _ _ _ _ _ rest ih =>
    exact .chunk hlt (.wait (ih (add_curPktSize_le hle)))
  | case6 n sentSize hge => exact .nil hle

/-! ## The commands of the loop -/

/-- The commands among the calls. -/
def commandsOf (events : List SendEvent) : List Command :=
  events.filterMap fun
    | .exec c => some c
    | _ => none

/-- The commands are those of `sendCommands`, for the turns that reach one. -/
theorem sendLoop_commands (conId bfsz : Nat) (turn : Nat → SendTurn) (n sentSize : Nat) :
    ∃ turns, commandsOf (sendLoop conId bfsz turn n sentSize).events =
      sendCommands conId bfsz sentSize turns := by
  fun_induction sendLoop conId bfsz turn n sentSize with
  | case1 n sentSize hlt => exact ⟨0, rfl⟩
  | case2 n sentSize hlt => exact ⟨1, (if_pos hlt).symm⟩
  | case3 n sentSize hlt => exact ⟨1, (if_pos hlt).symm⟩
  | case4 n sentSize hlt => exact ⟨1, (if_pos hlt).symm⟩
  | case5 n sentSize hlt _ _ _ _ _ _ rest ih =>
    obtain ⟨turns, hturns⟩ := ih
    refine ⟨turns + 1, ?_⟩
    rw [sendCommands, if_pos hlt, ← hturns]
    rfl
  | case6 n sentSize hge => exact ⟨0, rfl⟩

/-! ## The result of the loop -/

theorem Rc.code_neg {rc : Rc} (h : rc ≠ .eok) : rc.code < 0 := by
  cases rc <;> first | exact absurd rfl h | decide

/-- A turn that fails ends the loop with an error. -/
theorem result_of_failed {turn : Nat → SendTurn} {n bfsz sentSize : Nat} (hlt : sentSize < bfsz)
    (hturn : (turn n).ok ≠ true) {P : Prop} {result : Int} (hneg : result < 0) :
    (AllOk turn n (bfsz - sentSize) → P) ∧ (¬ AllOk turn n (bfsz - sentSize) → result < 0) :=
  ⟨fun h => absurd (h.first (by omega)) hturn, fun _ => hneg⟩

/-- The loop reports the whole buffer if every step succeeds, and an error
otherwise. -/
theorem sendLoop_result (conId bfsz : Nat) (turn : Nat → SendTurn) (n sentSize : Nat)
    (hle : sentSize ≤ bfsz) :
    (AllOk turn n (bfsz - sentSize) →
      sentSize + covered (dataChunks (sendLoop conId bfsz turn n sentSize).events) = bfsz ∧
        (sendLoop conId bfsz turn n sentSize).result = toInt bfsz ∧
        (sendLoop conId bfsz turn n sentSize).sentSize = bfsz) ∧
    (¬ AllOk turn n (bfsz - sentSize) →
      (sendLoop conId bfsz turn n sentSize).result < 0) := by
  fun_induction sendLoop conId bfsz turn n sentSize with
  | case1 n sentSize hlt hresp =>
    refine result_of_failed hlt (fun h => ?_) (show Rc.nomem.code < 0 by decide)
    simp only [SendTurn.ok, Bool.and_eq_true] at h
    simp [h.1.1.1] at hresp
  | case2 n sentSize hlt _ hresp hcmd =>
    refine result_of_failed hlt (fun h => ?_) (show Rc.error.code < 0 by decide)
    simp only [SendTurn.ok, Bool.and_eq_true] at h
    simp [h.1.1.2] at hcmd
  | case3 n sentSize hlt _ _ _ _ hdata =>
    refine result_of_failed hlt (fun h => ?_) (show Rc.error.code < 0 by decide)
    simp only [SendTurn.ok, Bool.and_eq_true] at h
    simp [hdata] at h
  | case4 n sentSize hlt _ _ _ _ _ hwait =>
    refine result_of_failed hlt (fun h => ?_) (Rc.code_neg hwait)
    simp only [SendTurn.ok, Bool.and_eq_true, beq_iff_eq] at h
    exact hwait h.2
  | case5 n sentSize hlt cmd data hresp hcmd hdata hwait rest ih =>
    obtain ⟨hall, hfailed⟩ := ih (add_curPktSize_le hle)
    have hok : (turn n).ok = true := by
      simp only [Bool.not_eq_true', Bool.not_eq_false, ne_eq, not_not] at hresp hcmd hwait
      simp [SendTurn.ok, hresp, hcmd, hdata, hwait]
    rw [allOk_iff hlt, hok]
    refine ⟨fun h => ?_, fun h => hfailed fun hrest => h ⟨rfl, hrest⟩⟩
    obtain ⟨hcovered, hresult, hsent⟩ := hall h.2
    refine ⟨?_, hresult, hsent⟩
    rw [← hcovered, Nat.add_assoc]
    congr 1
  | case6 n sentSize hge =>
    obtain rfl : sentSize = bfsz := by omega
    refine ⟨fun _ => ⟨rfl, rfl, rfl⟩, fun h => absurd (fun i hi => ?_) h⟩
    rw [Nat.sub_self] at hi
    exact absurd hi (Nat.not_lt_zero i)

/-! ## The send -/

theorem toInt_of_lt {n : Nat} (h : n < 2 ^ 31) : toInt n = n := by
  unfold toInt
  rw [Nat.mod_eq_of_lt (by omega), if_pos h]

theorem dataChunks_append (a b : List SendEvent) :
    dataChunks (a ++ b) = dataChunks a ++ dataChunks b := List.filterMap_append

/-- The chunks of a send start at the front of the buffer, follow each other and
have one to 1024 bytes, and each has its own command.  If every step succeeds,
they are the whole buffer and its size is returned, and otherwise the result is
negative.  In both cases the end sign is reset and the lock is released, once. -/
theorem send_fragments (conId bfsz : Nat) (turn : Nat → SendTurn) (hint : bfsz < 2 ^ 31) :
    let r := aiwb2SocketSend conId bfsz turn
    Consecutive 0 (dataChunks r.events) ∧
      (∀ c ∈ dataChunks r.events, 1 ≤ c.2 ∧ c.2 ≤ 1024) ∧
      covered (dataChunks r.events) ≤ bfsz ∧
      Announced conId r.events ∧
      (AllOk turn 0 bfsz → covered (dataChunks r.events) = bfsz ∧ r.ret = bfsz) ∧
      (¬ AllOk turn 0 bfsz → r.ret < 0) ∧
      ∃ body, r.events = .take :: .setEndSign 62 :: (body ++ [.setEndSign 0, .release]) ∧
        ∀ e ∈ body, e = .sendWait ∨ e.isTransfer = true := by
  intro r
  have hshape := sendLoop_shape conId bfsz turn 0 0 (Nat.zero_le bfsz)
  obtain ⟨hall, hfailed⟩ := sendLoop_result conId bfsz turn 0 0 (Nat.zero_le bfsz)
  -- the calls around the loop are neither commands nor chunks
  have hchunks : dataChunks r.events = dataChunks (sendLoop conId bfsz turn 0 0).events := by
    show dataChunks (_ ++ [.setEndSign 0, .release]) = _
    rw [dataChunks_append]
    exact List.append_nil _
  have htransfer : r.events.filter (·.isTransfer) =
      (sendLoop conId bfsz turn 0 0).events.filter (·.isTransfer) := by
    show ((sendLoop conId bfsz turn 0 0).events ++ [SendEvent.setEndSign 0, .release]).filter
      (·.isTransfer) = _
    rw [List.filter_append]
    exact List.append_nil _
  rw [Announced, htransfer, hchunks]
  refine ⟨hshape.consecutive, hshape.sizes, ?_, hshape.announced, fun h => ?_, fun h => ?_,
    (sendLoop conId bfsz turn 0 0).events, rfl, hshape.inner⟩
  · rw [← Nat.zero_add (covered _)]
    exact hshape.covered_le
  · obtain ⟨hcovered, hresult, hsent⟩ := hall h
    rw [Nat.zero_add] at hcovered
    refine ⟨hcovered, ?_⟩
    show (if 0 < (sendLoop conId bfsz turn 0 0).result then _ else _) = _
    rw [hresult, hsent, ite_self, toInt_of_lt hint]
  · have hneg := hfailed h
    show (if 0 < (sendLoop conId bfsz turn 0 0).result then _ else _) < _
    rw [if_neg (by omega)]
    exact hneg

/-- A buffer of 1500 bytes whose second chunk is not confirmed in time. -/
theorem send_fragments_timeout :
    let turn : Nat → SendTurn := fun n => ⟨true, true, 1, if n = 0 then .eok else .timeout⟩
    covered (dataChunks (aiwb2SocketSend 1 1500 turn).events) ≤ 1500 ∧
      (aiwb2SocketSend 1 1500 turn).ret < 0 := by
  intro turn
  obtain ⟨-, -, hcovered, -, -, hfailed, -⟩ := send_fragments 1 1500 turn (by decide)
  refine ⟨hcovered, hfailed fun h => ?_⟩
  exact absurd (h 1 (by decide)) (by decide)

end Hc32Board.AiWb2
