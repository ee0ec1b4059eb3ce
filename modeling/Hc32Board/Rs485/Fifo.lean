import Hc32Board.Rs485.Driver

/-!
# The receive path is a FIFO

What `rs485_recv` returned so far, followed by the unread content of the ring,
is the stream of the bytes that the callback took, without those that came
while 511 bytes were unread.  This holds in every state of every run, for any
callbacks and any calls in between (`receive_fifo`).

`pairing_iff` asks a question about the same stream: are the bytes that
`rs485_send_then_recv` returns the response to its own request?  The function
does not clear the ring before it sends.  The bytes it returns all arrived
after its send began exactly if the ring was empty at that moment.
-/

namespace Hc32Board.Rs485

open Hc32Board.CodeLib

/-! ## The stream of bytes -/

structure Fifo (s : Driver) : Prop where
  size : s.rxRb.size = rxBufSize
  stream : s.returned ++ s.rxRb.unread = s.drained.filter fun a => a.unread < rxBufSize - 1
  bound : ∀ a ∈ s.drained, a.unread < rxBufSize

theorem fifo_init : Fifo .init where
  size := length_rxRbData
  bound := nofun
  stream := by
    rw [Driver.init, Driver.returned, lwrbInit_unread lwrbInit_rxRbData]
    rfl

theorem Fifo.step {s : Driver} (h : Fifo s) (a : Act) : Fifo (step s a) := by
  rcases act_cases s a with ⟨bytes, rfl⟩ | ⟨f, err, rfl, hpc⟩ | ⟨hsame, -⟩
  · obtain ⟨new, hdrained, hring, hsize, -, hnew⟩ := drain_spec bytes s
    refine ⟨?_, ?_, ?_⟩
    · simp only [Rs485.step, Driver.act, rs485RxInd_rxRb]
      rw [hsize, h.size]
    · simp only [Rs485.step, Driver.act, Driver.returned, rs485RxInd_rxRb, rs485RxInd_drained,
        rs485RxInd_results]
      rw [hdrained, hring, List.filter_append, ← h.stream, h.size, Driver.returned,
        List.append_assoc]
    · simp only [Rs485.step, Driver.act, rs485RxInd_drained, hdrained]
      intro a ha
      rcases List.mem_append.mp ha with hold | hin
      · exact h.bound a hold
      · exact h.size ▸ (hnew a hin).2
  · refine ⟨?_, ?_, ?_⟩
    · simp only [Rs485.step, Driver.act, hpc, recvRead]
      rw [lwrbRead_size, h.size]
    · -- the bytes move from the front of the ring to the end of what was returned
      simp only [Rs485.step, Driver.act, hpc, recvRead, Driver.returned, List.flatMap_append,
        List.flatMap_singleton]
      rw [lwrbRead_data, lwrbRead_unread, List.append_assoc, List.take_append_drop]
      exact h.stream
    · simp only [Rs485.step, Driver.act, hpc, recvRead]
      exact h.bound
  · refine ⟨?_, ?_, ?_⟩
    · simp only [Rs485.step]
      rw [hsame.rxRb, h.size]
    · simp only [Rs485.step, Driver.returned]
      rw [hsame.results, hsame.rxRb, hsame.drained]
      exact h.stream
    · simp only [Rs485.step]
      rw [hsame.drained]
      exact h.bound

/-- The history of arrivals is the bytes of the interrupts. -/
theorem drained_bytes (acts : List Act) (s : Driver) :
    (run step s acts).drained.map Arrival.byte =
      s.drained.map Arrival.byte ++ acts.flatMap Act.bytes := by
  induction acts generalizing s with
  | nil => exact (List.append_nil _).symm
  | cons a acts ih =>
    have hstep : (step s a).drained.map Arrival.byte = s.drained.map Arrival.byte ++ a.bytes := by
      rcases act_cases s a with ⟨bytes, rfl⟩ | ⟨f, err, rfl, hpc⟩ | ⟨hsame, hbytes⟩
      · obtain ⟨new, hdrained, -, -, hbytes, -⟩ := drain_spec bytes s
        simp only [Rs485.step, Driver.act, rs485RxInd_drained, hdrained, List.map_append, hbytes]
        rfl
      · simp only [Rs485.step, Driver.act, hpc, recvRead, Act.bytes, List.append_nil]
      · simp only [Rs485.step, hsame.drained, hbytes, List.append_nil]
    rw [List.flatMap_cons, ← List.append_assoc, ← hstep]
    exact ih (step s a)

/-- The cells that a read touches: a part up to the end of the buffer, and a
part below the read pointer. -/
theorem Lwrb.read_in_range {α : Type} (rb : Lwrb α) {n : Nat} (hn : n ≤ lwrbGetFull rb) :
    rb.rPtr + rb.tocopy rb.rPtr n ≤ rb.size ∧ n - rb.tocopy rb.rPtr n ≤ rb.rPtr := by
  have hr := rb.rPtr_lt
  have hlt := lwrbGetFull_lt rb
  rw [Lwrb.tocopy]
  rw [Lwrb.size] at *
  omega

/-- In every run after `rs485_init`, what was returned followed by what is
unread is the stream of drained bytes without those that arrived while 511
bytes were unread.  Every cell that a write or a read of any length touches is
a cell of `rx_rb_data`. -/
theorem receive_fifo (acts : List Act) :
    let s := run step .init acts
    s.drained.map Arrival.byte = acts.flatMap Act.bytes ∧
      s.returned ++ s.rxRb.unread = s.drained.filter (fun a => a.unread ≠ 511) ∧
      s.rxRb.buff.length = 512 ∧ s.rxRb.wPtr < 512 ∧ s.rxRb.rPtr < 512 ∧
      ∀ n ≤ lwrbGetFull s.rxRb,
        s.rxRb.rPtr + s.rxRb.tocopy s.rxRb.rPtr n ≤ 512 ∧
          n - s.rxRb.tocopy s.rxRb.rPtr n ≤ s.rxRb.rPtr := by
  intro s
  have h : Fifo s := run_invariant' (fun _ a h => h.step a) acts _ fifo_init
  have hsize : s.rxRb.buff.length = 512 := h.size
  refine ⟨drained_bytes acts .init, ?_, hsize, hsize ▸ s.rxRb.wPtr_lt, hsize ▸ s.rxRb.rPtr_lt, ?_⟩
  · rw [h.stream]
    apply List.filter_congr
    intro a ha
    have hlt : a.unread < 512 := h.bound a ha
    have hiff : a.unread < 511 ↔ a.unread ≠ 511 := by omega
    exact decide_eq_decide.mpr hiff
  · intro n hn
    have hrange := s.rxRb.read_in_range hn
    rw [show s.rxRb.size = 512 from hsize] at hrange
    exact hrange

/-! ## Requests and responses -/

/-- The mark of the call in progress. -/
def Pc.mark : Pc → Option SendMark
  | .sending mark (some _) => some mark
  | .waiting f | .taken f _ => f.mark
  | _ => none

/-- What a step can put into the call in progress: nothing, what was there, or
the mark of a send that begins.  A receive that gets past its checks reads at
least one byte. -/
structure PcStep (s s' : Driver) : Prop where
  mark : s'.pc.mark = none ∨ s'.pc.mark = s.pc.mark ∨
    s'.pc.mark = some ⟨s.time, s.rxRb.unread.length⟩
  frame : ∀ f, s'.pc.frame = some f → s.pc.frame = some f ∨ 0 < f.args.maxLen

theorem pcStep_of_eq {s s' : Driver} (h : s'.pc = s.pc) : PcStep s s' :=
  ⟨.inr (.inl (by rw [h])), fun _ hf => .inl (h ▸ hf)⟩

theorem pcStep_of_idle {s s' : Driver} (h : s'.pc = .idle) : PcStep s s' := by
  constructor
  · rw [h]
    exact .inl rfl
  · intro f hf
    rw [h] at hf
    exact absurd hf (by simp [Pc.frame])

theorem pcStep_rs485Recv {s : Driver} {args : RecvArgs} {mark : Option SendMark}
    (hmark : mark = none ∨ mark = s.pc.mark) : PcStep s (rs485Recv s args mark) := by
  rcases rs485Recv_cases s args mark with h | ⟨hmax, ⟨-, h⟩ | ⟨-, h⟩ | ⟨-, h⟩⟩
  · exact pcStep_of_idle (by rw [h])
  all_goals
    rw [h]
    refine ⟨hmark.imp_right .inl, fun f hf => .inr ?_⟩
    obtain rfl := Option.some.inj hf
    exact hmax

theorem pcStep_rs485Send (s : Driver) (data : Bool) (len : Nat) (next : Option RecvArgs) :
    PcStep s (rs485Send s data len next) := by
  rw [rs485Send]
  split_ifs
  · exact pcStep_of_eq rfl
  · constructor
    · cases next with
      | none => exact .inl rfl
      | some args => exact .inr (.inr rfl)
    · intro f hf
      exact absurd hf (by simp [Pc.frame])

theorem pcStep_act (s : Driver) (a : Act) : PcStep s (s.act a) := by
  cases a with
  | rxInd bytes =>
    rw [Driver.act, rs485RxInd]
    simp only [drain_pc]
    split
    · rename_i f hpc
      refine ⟨.inr (.inl ?_), fun f' hf => .inl ?_⟩
      · rw [hpc]
        rfl
      · rw [hpc]
        exact hf
    · exact pcStep_of_eq rfl
  | recv args =>
    rw [Driver.act]
    split_ifs
    · exact pcStep_rs485Recv (.inl rfl)
    · exact pcStep_of_eq rfl
  | send data len =>
    rw [Driver.act]
    split_ifs
    · exact pcStep_rs485Send s data len none
    · exact pcStep_of_eq rfl
  | sendThenRecv data len args =>
    rw [Driver.act]
    split_ifs
    · exact pcStep_rs485Send s data len (some args)
    · exact pcStep_of_eq rfl
  | sendReturn =>
    rw [Driver.act]
    split
    · exact pcStep_of_idle rfl
    · rename_i mark args hpc
      exact pcStep_rs485Recv (.inr (by rw [hpc]; rfl))
    · exact pcStep_of_eq rfl
  | expire =>
    rw [Driver.act]
    split
    · rename_i f hpc
      split_ifs
      · refine ⟨.inr (.inl (by rw [hpc]; rfl)), fun f' hf => .inl ?_⟩
        rw [hpc]
        exact hf
      · exact pcStep_of_eq rfl
    · exact pcStep_of_eq rfl
  | takeFails =>
    rw [Driver.act]
    split
    · exact pcStep_of_idle rfl
    · exact pcStep_of_eq rfl
  | read =>
    rw [Driver.act]
    split
    · exact pcStep_of_idle rfl
    · exact pcStep_of_eq rfl

/-- The ring holds first the bytes that were unread at the mark, and then those
that arrived after it. -/
structure SplitAt (unread : List Arrival) (m : SendMark) : Prop where
  length : m.unread ≤ unread.length
  before : ∀ a ∈ unread.take m.unread, a.time < m.time
  after : ∀ a ∈ unread.drop m.unread, m.time ≤ a.time

theorem SplitAt.append {unread new : List Arrival} {m : SendMark} (h : SplitAt unread m)
    (hnew : ∀ a ∈ new, m.time ≤ a.time) : SplitAt (unread ++ new) m where
  length := Nat.le_trans h.length (by rw [List.length_append]; omega)
  before := by
    rw [List.take_append_of_le_length h.length]
    exact h.before
  after := by
    rw [List.drop_append_of_le_length h.length]
    intro a ha
    rcases List.mem_append.mp ha with hold | hin
    · exact h.after a hold
    · exact hnew a hin

/-- A read that starts at the front returns only later bytes exactly if there
were no earlier ones. -/
theorem SplitAt.take_iff {unread : List Arrival} {m : SendMark} (h : SplitAt unread m) {n : Nat}
    (hn : 0 < n) : (∀ a ∈ unread.take n, m.time ≤ a.time) ↔ m.unread = 0 := by
  constructor
  · intro hall
    by_contra hne
    -- the byte at the front is in the read and in the part before the mark
    have hlen := h.length
    obtain ⟨a, rest, rfl⟩ := List.exists_cons_of_length_pos (show 0 < unread.length by omega)
    have hbefore : a.time < m.time := h.before a (List.mem_take_iff_getElem.mpr ⟨0, by omega, rfl⟩)
    have hafter : m.time ≤ a.time := hall a (List.mem_take_iff_getElem.mpr ⟨0, by simp; omega, rfl⟩)
    omega
  · intro hzero a ha
    have hafter := h.after
    rw [hzero, List.drop_zero] at hafter
    exact hafter a (List.mem_of_mem_take ha)

/-- The bytes that a call returned arrived after its mark exactly if nothing was
unread then. -/
def Fresh (r : Result) : Prop :=
  ∀ m, r.frame.mark = some m → ((∀ a ∈ r.data, m.time ≤ a.time) ↔ m.unread = 0)

structure Stamped (s : Driver) : Prop where
  past : ∀ a ∈ s.rxRb.unread, a.time < s.time
  mark : ∀ m, s.pc.mark = some m → m.time < s.time ∧ SplitAt s.rxRb.unread m
  frame : ∀ f, s.pc.frame = some f → 0 < f.args.maxLen
  results : ∀ r ∈ s.results, Fresh r

theorem stamped_init : Stamped .init where
  past := by
    rw [show Driver.init.rxRb = rxRbInit from rfl, lwrbInit_unread lwrbInit_rxRbData]
    exact nofun
  mark := nofun
  frame := nofun
  results := nofun

/-- The mark of the call in progress, before the bytes of the step itself. -/
theorem Stamped.mark_act {s : Driver} (h : Stamped s) (a : Act) {m : SendMark}
    (hm : (s.act a).pc.mark = some m) : m.time ≤ s.time ∧ SplitAt s.rxRb.unread m := by
  rcases (pcStep_act s a).mark with hnone | hold | hnew
  · rw [hnone] at hm
    exact absurd hm (by simp)
  · obtain ⟨hlt, hsplit⟩ := h.mark m (hold ▸ hm)
    exact ⟨Nat.le_of_lt hlt, hsplit⟩
  · -- a send begins, and everything in the ring is older
    obtain rfl := Option.some.inj (hnew.symm.trans hm)
    refine ⟨Nat.le_refl _, Nat.le_refl _, ?_, ?_⟩
    · rw [List.take_length]
      exact h.past
    · rw [List.drop_length]
      exact nofun

theorem Stamped.step {s : Driver} (h : Stamped s) (a : Act) : Stamped (step s a) := by
  have hframe : ∀ f, (s.act a).pc.frame = some f → 0 < f.args.maxLen := fun f hf =>
    ((pcStep_act s a).frame f hf).elim (h.frame f) id
  rcases act_cases s a with ⟨bytes, rfl⟩ | ⟨f, err, rfl, hpc⟩ | ⟨hsame, -⟩
  · obtain ⟨new, -, hring, -, -, hnew⟩ := drain_spec bytes s
    have hring' : (Rs485.step s (.rxInd bytes)).rxRb.unread =
        s.rxRb.unread ++ new.filter (fun a => a.unread < s.rxRb.size - 1) := by
      simp only [Rs485.step, Driver.act, rs485RxInd_rxRb, hring]
    refine ⟨?_, ?_, hframe, ?_⟩
    · rw [hring']
      intro a ha
      show a.time < s.time + 1
      rcases List.mem_append.mp ha with hold | hin
      · exact Nat.lt_succ_of_lt (h.past a hold)
      · rw [(hnew a (List.mem_of_mem_filter hin)).1]
        exact Nat.lt_succ_self _
    · intro m hm
      obtain ⟨hle, hsplit⟩ := h.mark_act (.rxInd bytes) hm
      refine ⟨Nat.lt_succ_of_le hle, ?_⟩
      rw [hring']
      apply hsplit.append
      intro a ha
      rw [(hnew a (List.mem_of_mem_filter ha)).1]
      exact hle
    · simp only [Rs485.step, Driver.act, rs485RxInd_results]
      exact h.results
  · have hring' : (Rs485.step s .read).rxRb.unread = s.rxRb.unread.drop f.args.maxLen := by
      simp only [Rs485.step, Driver.act, hpc, recvRead, lwrbRead_unread]
    refine ⟨?_, ?_, hframe, ?_⟩
    · rw [hring']
      intro a ha
      exact Nat.lt_succ_of_lt (h.past a (List.mem_of_mem_drop ha))
    · intro m hm
      simp only [Rs485.step, Driver.act, hpc, recvRead] at hm
      exact absurd hm (by simp [Pc.mark])
    · simp only [Rs485.step, Driver.act, hpc, recvRead, lwrbRead_data]
      intro r hr
      rcases List.mem_append.mp hr with hold | hin
      · exact h.results r hold
      · obtain rfl := List.mem_singleton.mp hin
        intro m hm
        have hsplit := (h.mark m (by rw [hpc]; exact hm)).2
        exact hsplit.take_iff (h.frame f (by rw [hpc]; rfl))
  · refine ⟨?_, ?_, hframe, ?_⟩
    · simp only [Rs485.step, hsame.rxRb]
      intro a ha
      exact Nat.lt_succ_of_lt (h.past a ha)
    · intro m hm
      obtain ⟨hle, hsplit⟩ := h.mark_act a hm
      refine ⟨Nat.lt_succ_of_le hle, ?_⟩
      simp only [Rs485.step, hsame.rxRb]
      exact hsplit
    · simp only [Rs485.step, hsame.results]
      exact h.results

/-- In every run, the bytes that a `rs485_send_then_recv` returned all arrived
after its own send began, exactly if the ring was empty when that send
began. -/
theorem pairing_iff (acts : List Act) (r : Result) (hr : r ∈ (run step .init acts).results)
    (m : SendMark) (hm : r.frame.mark = some m) :
    (∀ a ∈ r.data, m.time ≤ a.time) ↔ m.unread = 0 := by
  have h : Stamped (run step .init acts) :=
    run_invariant' (fun _ a h => h.step a) acts _ stamped_init
  exact h.results r hr m hm

/-- A request of 8 bytes, with room for a response of 8 bytes. -/
def exchange : Act := .sendThenRecv true 8 ⟨true, 8, 200⟩

/-- A poll that finds nothing, and a request whose response `[1, 2]` comes in
time. -/
def inTime : List Act :=
  [.recv ⟨true, 8, 0⟩, .read, exchange, .sendReturn, .rxInd [1, 2], .read]

theorem pairing_in_time :
    let r : Result := ⟨⟨⟨true, 8, 200⟩, some ⟨2, 0⟩, 0⟩, .eok, [⟨1, 4, 0⟩, ⟨2, 4, 1⟩]⟩
    r ∈ (run step .init inTime).results ∧ ∀ a ∈ r.data, 2 ≤ a.time := by
  intro r
  have hr : r ∈ (run step .init inTime).results := by decide +kernel
  exact ⟨hr, (pairing_iff inTime r hr ⟨2, 0⟩ rfl).mpr rfl⟩

/-- The response to the first request comes after its timeout, and then there is
a second request. -/
def lateResponse : List Act :=
  [exchange, .sendReturn, .expire, .read, .rxInd [1, 2], exchange, .sendReturn, .read]

/-- The second request began in step 5, and it returns the bytes that arrived in
step 4. -/
theorem late_response_returned :
    let r : Result := ⟨⟨⟨true, 8, 200⟩, some ⟨5, 2⟩, 2⟩, .eok, [⟨1, 4, 0⟩, ⟨2, 4, 1⟩]⟩
    r ∈ (run step .init lateResponse).results ∧ ¬ ∀ a ∈ r.data, 5 ≤ a.time := by
  decide +kernel

end Hc32Board.Rs485
