import Hc32Board.Rs485.Driver

/-!
# The semaphore and the ring

`rx_sem` counts callbacks and the ring counts bytes.  `rs485_recv` takes one
unit of the first and up to `max_len` of the second.  While both are empty or
neither is, a receive waits only when there is nothing to read, and returns 0
only after its timeout.

* `inStep_iff_balanced`: each callback with a byte keeps the two in step.  A read
  of the ring keeps them in step exactly if it leaves bytes behind when there is
  still a count, and none when there is not (`Balanced`).
* `receive_waits`: they stay in step in every run that gives each callback a
  whole receive of its own, with room for all its bytes (`OneReceiveEach`).
* `count_out_of_step`: two runs that do not.
-/

namespace Hc32Board.Rs485

open Hc32Board.CodeLib

/-- What the header of the driver promises, in a state.  Between two calls the
semaphore has a count exactly if there are unread bytes.  A call that found
unread bytes neither waits nor has a timeout.  A call that returned 0 had its
timeout. -/
structure InStep (s : Driver) : Prop where
  boundary : s.pc = .idle → (0 < s.rxSem ↔ s.rxRb.unread ≠ [])
  waits : ∀ f, s.pc = .waiting f ∨ s.pc = .taken f .etimeout → f.unreadAtCall = 0
  zero : ∀ r ∈ s.results, r.data = [] → r.err = .etimeout

/-- The call that reads the ring next. -/
def Pc.reads : Pc → Option Frame
  | .taken f _ => some f
  | _ => none

/-- A read of the ring leaves bytes behind exactly if the semaphore still has a
count. -/
def Balanced (s : Driver) (a : Act) : Prop :=
  a = .read → ∀ f ∈ s.pc.reads, (0 < s.rxSem ↔ f.args.maxLen < s.rxRb.unread.length)

/-- A callback finds at least one byte. -/
def HasByte (_ : Driver) (a : Act) : Prop := ∀ bytes, a = .rxInd bytes → bytes ≠ []

/-- The invariant behind `InStep`. -/
structure Counted (s : Driver) : Prop where
  size : 1 < s.rxRb.size
  boundary : s.pc.frame = none → (0 < s.rxSem ↔ s.rxRb.unread ≠ [])
  waiting : ∀ f, s.pc = .waiting f → s.rxSem = 0 ∧ s.rxRb.unread = []
  waits : ∀ f, s.pc = .waiting f ∨ s.pc = .taken f .etimeout → f.unreadAtCall = 0
  taken : ∀ f, s.pc = .taken f .eok → s.rxRb.unread ≠ []
  frame : ∀ f, s.pc.frame = some f → 0 < f.args.maxLen
  zero : ∀ r ∈ s.results, r.data = [] → r.err = .etimeout

/-- Outside `rs485_recv` the count and the ring have to agree. -/
theorem Counted.outside {s : Driver} (hpc : s.pc.frame = none) (hsize : 1 < s.rxRb.size)
    (hbound : 0 < s.rxSem ↔ s.rxRb.unread ≠ [])
    (hzero : ∀ r ∈ s.results, r.data = [] → r.err = .etimeout) : Counted s where
  size := hsize
  boundary _ := hbound
  waiting f hf := by rw [hf] at hpc; cases hpc
  waits f hf := by rcases hf with hf | hf <;> rw [hf] at hpc <;> cases hpc
  taken f hf := by rw [hf] at hpc; cases hpc
  frame f hf := by rw [hf] at hpc; cases hpc
  zero := hzero

/-- Before a read of the ring. -/
theorem Counted.taking {s : Driver} {f : Frame} {err : TakeErr} (hpc : s.pc = .taken f err)
    (hsize : 1 < s.rxRb.size) (hwaits : err = .etimeout → f.unreadAtCall = 0)
    (htaken : err = .eok → s.rxRb.unread ≠ []) (hmax : 0 < f.args.maxLen)
    (hzero : ∀ r ∈ s.results, r.data = [] → r.err = .etimeout) : Counted s where
  size := hsize
  boundary hf := by rw [hpc] at hf; cases hf
  waiting f' hf := by rw [hpc] at hf; cases hf
  waits f' hf := by
    rw [hpc] at hf
    rcases hf with hf | hf
    · cases hf
    · obtain ⟨rfl, herr⟩ := Pc.taken.inj hf
      exact hwaits herr
  taken f' hf := by
    rw [hpc] at hf
    exact htaken (Pc.taken.inj hf).2
  frame f' hf := by
    rw [hpc] at hf
    obtain rfl := Option.some.inj hf
    exact hmax
  zero := hzero

theorem counted_init : Counted .init := by
  refine .outside rfl ?_ ?_ (fun r hr => absurd hr (List.not_mem_nil))
  · rw [show Driver.init.rxRb.size = rxBufSize from length_rxRbData]
    decide
  · rw [show Driver.init.rxRb = rxRbInit from rfl, lwrbInit_unread lwrbInit_rxRbData]
    exact ⟨fun h => absurd h (by decide), fun h => absurd rfl h⟩

theorem Counted.inStep {s : Driver} (h : Counted s) : InStep s where
  boundary hpc := h.boundary (by rw [hpc]; rfl)
  waits := h.waits
  zero := h.zero

/-- After a callback with a byte the ring is not empty. -/
theorem unread_drain_ne_nil {s : Driver} (hsize : 1 < s.rxRb.size) {bytes : List UInt8}
    (hne : bytes ≠ []) : (drain s bytes).rxRb.unread ≠ [] := by
  obtain ⟨ch, rest, rfl⟩ := List.exists_cons_of_ne_nil hne
  rw [drain]
  obtain ⟨new, -, hring, -⟩ := drain_spec rest
    { s with
      rxRb := (lwrbWrite s.rxRb [(⟨ch, s.time, s.rxRb.unread.length⟩ : Arrival)]).1
      drained := s.drained ++ [⟨ch, s.time, s.rxRb.unread.length⟩] }
  rw [hring, lwrbWrite_unread]
  have hfree := lwrbGetFree_eq s.rxRb
  rw [← s.rxRb.length_unread] at hfree
  intro hnil
  have hlen := congrArg List.length hnil
  simp only [List.length_append, List.length_take, List.length_singleton, List.length_nil] at hlen
  omega

section Steps

variable {s : Driver}

/-- A call of `rs485_recv` from a boundary. -/
theorem Counted.rs485Recv (h : Counted s) (hpc : s.pc.frame = none) (args : RecvArgs)
    (mark : Option SendMark) : Counted (rs485Recv s args mark) := by
  have hbound := h.boundary hpc
  have hnil : s.rxSem = 0 → s.rxRb.unread = [] := by
    intro hsem
    by_contra hne
    exact absurd (hbound.mpr hne) (by omega)
  have hunread : s.rxSem = 0 → s.rxRb.unread.length = 0 := by
    intro hsem
    rw [hnil hsem]
    rfl
  rcases rs485Recv_cases s args mark with heq | ⟨hmax, ⟨hsem, heq⟩ | ⟨hsem, heq⟩ | ⟨hsem, heq⟩⟩ <;>
    rw [heq]
  · exact .outside rfl h.size hbound h.zero
  · exact .taking rfl h.size (fun herr => absurd herr (by decide)) (fun _ => hbound.mp hsem) hmax
      h.zero
  · exact .taking rfl h.size (fun _ => hunread hsem) (fun herr => absurd herr (by decide)) hmax
      h.zero
  · refine
      { size := h.size
        boundary := fun hf => absurd hf (by simp [Pc.frame])
        waiting := fun _ _ => ⟨hsem, hnil hsem⟩
        waits := fun f hf => ?_
        taken := fun _ hf => absurd hf (by simp)
        frame := fun f hf => ?_
        zero := h.zero }
    · simp only [reduceCtorEq, Pc.waiting.injEq, or_false] at hf
      rw [← hf]
      exact hunread hsem
    · obtain rfl := Option.some.inj hf
      exact hmax

theorem Counted.rs485Send (h : Counted s) (hpc : s.pc = .idle) (data : Bool) (len : Nat)
    (next : Option RecvArgs) : Counted (rs485Send s data len next) := by
  rw [Rs485.rs485Send]
  split_ifs
  · exact h
  · exact .outside rfl h.size (h.boundary (by rw [hpc]; rfl)) h.zero

theorem rtSemRelease_pos (value : Nat) : 0 < rtSemRelease value := by
  rw [rtSemRelease, rtSemValueMax]
  split_ifs <;> omega

theorem Counted.rs485RxInd (h : Counted s) {bytes : List UInt8} (hne : bytes ≠ []) :
    Counted (rs485RxInd s bytes) := by
  have hring := unread_drain_ne_nil h.size hne
  obtain ⟨-, -, -, hsize, -⟩ := drain_spec bytes s
  have hpos : 1 < (drain s bytes).rxRb.size := hsize ▸ h.size
  rw [Rs485.rs485RxInd]
  split
  · rename_i f hpc
    rw [drain_pc] at hpc
    refine .taking rfl hpos (fun herr => absurd herr (by decide)) (fun _ => hring) ?_ ?_
    · exact h.frame f (by rw [hpc]; rfl)
    · rw [drain_results]
      exact h.zero
  · rename_i hnot
    refine ⟨hpos, fun _ => ⟨fun _ => hring, fun _ => rtSemRelease_pos _⟩, ?_, ?_, fun _ _ => hring,
      ?_, ?_⟩
    · intro f hf
      exact absurd hf (hnot f)
    · rw [drain_pc]
      exact h.waits
    · rw [drain_pc]
      exact h.frame
    · rw [drain_results]
      exact h.zero

/-- A read of the ring keeps the count and the bytes in step if it is
balanced. -/
theorem Counted.recvRead (h : Counted s) {f : Frame} {err : TakeErr} (hpc : s.pc = .taken f err)
    (hbal : 0 < s.rxSem ↔ f.args.maxLen < s.rxRb.unread.length) : Counted (recvRead s f err) := by
  have hmax := h.frame f (by rw [hpc]; rfl)
  refine .outside rfl ?_ ?_ ?_
  · simp only [Rs485.recvRead, lwrbRead_size]
    exact h.size
  · simp only [Rs485.recvRead, lwrbRead_unread, ne_eq, List.drop_eq_nil_iff]
    omega
  · simp only [Rs485.recvRead, lwrbRead_data]
    intro r hr
    rcases List.mem_append.mp hr with hold | hin
    · exact h.zero r hold
    · obtain rfl := List.mem_singleton.mp hin
      intro hnil
      -- nothing was read, so the ring was empty, and the semaphore was not taken
      cases err with
      | etimeout => rfl
      | eok =>
        rcases List.take_eq_nil_iff.mp hnil with hzero | hempty
        · exact absurd hzero (by omega)
        · exact absurd hempty (h.taken f hpc)

theorem Counted.act (h : Counted s) (a : Act) (hbyte : HasByte s a) (hbal : Balanced s a) :
    Counted (s.act a) := by
  cases a with
  | rxInd bytes => exact h.rs485RxInd (hbyte bytes rfl)
  | recv args =>
    rw [Driver.act]
    split_ifs with hpc
    · exact h.rs485Recv (by rw [hpc]; rfl) args none
    · exact h
  | send data len =>
    rw [Driver.act]
    split_ifs with hpc
    · exact h.rs485Send hpc data len none
    · exact h
  | sendThenRecv data len args =>
    rw [Driver.act]
    split_ifs with hpc
    · exact h.rs485Send hpc data len (some args)
    · exact h
  | sendReturn =>
    rw [Driver.act]
    split
    · rename_i hpc
      exact .outside rfl h.size (h.boundary (by rw [hpc]; rfl)) h.zero
    · rename_i hpc
      exact h.rs485Recv (by rw [hpc]; rfl) _ _
    · exact h
  | expire =>
    rw [Driver.act]
    split
    · rename_i f hpc
      split_ifs
      · refine .taking rfl h.size (fun _ => h.waits f (.inl hpc)) ?_ ?_ h.zero
        · exact fun herr => absurd herr (by decide)
        · exact h.frame f (by rw [hpc]; rfl)
      · exact h
    · exact h
  | takeFails =>
    rw [Driver.act]
    split
    · rename_i f hpc
      obtain ⟨hsem, hnil⟩ := h.waiting f hpc
      refine .outside rfl h.size ?_ h.zero
      simp [hsem, hnil]
    · exact h
  | read =>
    rw [Driver.act]
    split
    · rename_i f err hpc
      exact h.recvRead hpc (hbal rfl f (by rw [hpc]; rfl))
    · exact h

theorem Counted.step (h : Counted s) (a : Act) (hbyte : HasByte s a) (hbal : Balanced s a) :
    Counted (step s a) := by
  have hact := h.act a hbyte hbal
  exact ⟨hact.size, hact.boundary, hact.waiting, hact.waits, hact.taken, hact.frame, hact.zero⟩

/-- A step from a state of the invariant leaves a state in step exactly if it is
balanced. -/
theorem Counted.inStep_iff (h : Counted s) (a : Act) (hbyte : HasByte s a) :
    InStep (Rs485.step s a) ↔ Balanced s a := by
  constructor
  · rintro hin rfl f hf
    obtain ⟨err, hpc⟩ : ∃ err, s.pc = .taken f err := by
      cases hpc : s.pc <;> rw [hpc] at hf <;> cases hf
      exact ⟨_, rfl⟩
    have hbound := hin.boundary (by simp [Rs485.step, Driver.act, hpc, Rs485.recvRead])
    simp only [Rs485.step, Driver.act, hpc, Rs485.recvRead, lwrbRead_unread, ne_eq,
      List.drop_eq_nil_iff] at hbound
    omega
  · intro hbal
    exact (h.step a hbyte hbal).inStep

end Steps

/-- In a run whose callbacks each find a byte, the semaphore and the ring stay
in step exactly if every read of the ring is balanced. -/
theorem inStep_iff_balanced (acts : List Act) (hbytes : Along step HasByte .init acts) :
    Along step (fun s a => InStep (step s a)) .init acts ↔ Along step Balanced .init acts :=
  along_iff_of_keeps (fun _ a h hbyte => h.inStep_iff a hbyte) (fun _ a h => h.step a) acts _
    counted_init hbytes

/-! ## One receive for each callback -/

/-- A callback comes when all bytes of the one before it are read, and not
between `rt_sem_take` and the read of a receive.  A receive has room for what it
finds. -/
def OneReceiveEach (s : Driver) : Act → Prop
  | .rxInd _ => s.rxRb.unread = [] ∧ s.pc.reads = none
  | .read => ∀ f ∈ s.pc.reads, s.rxRb.unread.length ≤ f.args.maxLen
  | _ => True

instance (s : Driver) : (a : Act) → Decidable (OneReceiveEach s a)
  | .rxInd _ => inferInstanceAs (Decidable (_ ∧ _))
  | .read => inferInstanceAs (Decidable (∀ f ∈ s.pc.reads, _))
  | .recv _ | .send _ _ | .sendThenRecv _ _ _ | .sendReturn | .expire | .takeFails =>
    .isTrue trivial

/-- The semaphore counts at most one callback, and none during a receive. -/
structure OneCount (s : Driver) : Prop where
  atMostOne : s.rxSem ≤ 1
  receiving : ∀ f, s.pc.frame = some f → s.rxSem = 0

theorem OneCount.outside {s : Driver} (hpc : s.pc.frame = none) (hsem : s.rxSem ≤ 1) :
    OneCount s where
  atMostOne := hsem
  receiving f hf := by rw [hpc] at hf; cases hf

theorem OneCount.inside {s : Driver} (hsem : s.rxSem = 0) : OneCount s where
  atMostOne := by omega
  receiving _ _ := hsem

section Steps

variable {s : Driver}

theorem OneCount.balanced (h : OneCount s) (a : Act) (hone : OneReceiveEach s a) :
    Balanced s a := by
  rintro rfl f hf
  have hroom : s.rxRb.unread.length ≤ f.args.maxLen := hone f hf
  have hsem : s.rxSem = 0 := by
    cases hpc : s.pc <;> rw [hpc] at hf <;> cases hf
    exact h.receiving f (by rw [hpc]; rfl)
  omega

theorem OneCount.rs485Recv (h : OneCount s) (args : RecvArgs) (mark : Option SendMark) :
    OneCount (rs485Recv s args mark) := by
  have hone := h.atMostOne
  rcases rs485Recv_cases s args mark with heq | ⟨-, ⟨hsem, heq⟩ | ⟨hsem, heq⟩ | ⟨hsem, heq⟩⟩ <;>
    rw [heq]
  · exact .outside rfl hone
  · exact .inside (by dsimp only; omega)
  · exact .inside hsem
  · exact .inside hsem

theorem OneCount.rs485Send (h : OneCount s) (data : Bool) (len : Nat) (next : Option RecvArgs) :
    OneCount (rs485Send s data len next) := by
  rw [Rs485.rs485Send]
  split_ifs
  · exact h
  · exact .outside rfl h.atMostOne

/-- A callback that finds the ring empty gives the semaphore its first count, or
wakes the thread that waits. -/
theorem OneCount.rs485RxInd (h : OneCount s) (hcounted : Counted s) (bytes : List UInt8)
    (hempty : s.rxRb.unread = []) (hreads : s.pc.reads = none) :
    OneCount (rs485RxInd s bytes) := by
  rw [Rs485.rs485RxInd]
  split
  · rename_i f hpc
    rw [drain_pc] at hpc
    have hsem := h.receiving f (by rw [hpc]; rfl)
    exact .inside (by rw [← hsem]; exact drain_rxSem bytes s)
  · rename_i hnot
    rw [drain_pc] at hnot
    have hframe : s.pc.frame = none := by
      cases hpc : s.pc with
      | waiting f => exact absurd hpc (hnot f)
      | taken f err => rw [hpc] at hreads; cases hreads
      | _ => rfl
    have hsem : s.rxSem = 0 := by
      by_contra hpos
      exact (hcounted.boundary hframe).mp (by omega) hempty
    refine .outside (by rw [← hframe]; exact congrArg Pc.frame (drain_pc bytes s)) ?_
    show rtSemRelease (drain s bytes).rxSem ≤ 1
    rw [drain_rxSem, hsem]
    decide

theorem OneCount.act (h : OneCount s) (hcounted : Counted s) (a : Act)
    (hone : OneReceiveEach s a) : OneCount (s.act a) := by
  cases a with
  | rxInd bytes => exact h.rs485RxInd hcounted bytes hone.1 hone.2
  | recv args =>
    rw [Driver.act]
    split_ifs
    · exact h.rs485Recv args none
    · exact h
  | send data len =>
    rw [Driver.act]
    split_ifs
    · exact h.rs485Send data len none
    · exact h
  | sendThenRecv data len args =>
    rw [Driver.act]
    split_ifs
    · exact h.rs485Send data len (some args)
    · exact h
  | sendReturn =>
    rw [Driver.act]
    split
    · exact .outside rfl h.atMostOne
    · exact h.rs485Recv _ _
    · exact h
  | expire =>
    rw [Driver.act]
    split
    · rename_i f hpc
      have hsem := h.receiving f (by rw [hpc]; rfl)
      split_ifs
      · exact .inside hsem
      · exact h
    · exact h
  | takeFails =>
    rw [Driver.act]
    split
    · exact .outside rfl h.atMostOne
    · exact h
  | read =>
    rw [Driver.act]
    split
    · exact .outside rfl h.atMostOne
    · exact h

theorem OneCount.step (h : OneCount s) (hcounted : Counted s) (a : Act)
    (hone : OneReceiveEach s a) : OneCount (step s a) := by
  have hact := h.act hcounted a hone
  exact ⟨hact.atMostOne, hact.receiving⟩

end Steps

theorem oneCount_init : OneCount .init := .inside rfl

/-- In a run whose callbacks each find a byte, and in which each callback is
followed by a whole receive with room for its bytes before the next one comes,
the semaphore and the ring stay in step. -/
theorem receive_waits (acts : List Act) (hbytes : Along step HasByte .init acts)
    (hone : Along step OneReceiveEach .init acts) :
    Along step (fun s a => InStep (step s a)) .init acts := by
  have hbalanced : Along step Balanced .init acts := by
    refine along_of_keeps (I := fun s => Counted s ∧ OneCount s) (fun s a hinv hP => ?_) acts _
      ⟨counted_init, oneCount_init⟩ (hbytes.and hone)
    obtain ⟨hcounted, hcount⟩ := hinv
    have hbal := hcount.balanced a hP.2
    exact ⟨hbal, hcounted.step a hP.1 hbal, hcount.step hcounted a hP.2⟩
  exact (inStep_iff_balanced acts hbytes).mpr hbalanced

/-- A receive with room for 64 bytes. -/
def recvAll : Act := .recv ⟨true, 64, 200⟩

/-- Each callback is followed by a receive with room for all of its bytes. -/
def alternating : List Act := [.rxInd [1, 2], recvAll, .read, recvAll, .rxInd [3], .read]

theorem receive_waits_alternating :
    Along step OneReceiveEach .init alternating ∧
      Along step (fun s a => InStep (step s a)) .init alternating := by
  have hone : Along step OneReceiveEach .init alternating := by decide +kernel
  refine ⟨hone, receive_waits alternating ?_ hone⟩
  simp [alternating, recvAll, Along, HasByte]

/-- Two callbacks come before the first receive. -/
def twoCallbacks : List Act := [.rxInd [1], .rxInd [2], recvAll, .read, recvAll, .read]

/-- The first receive is shorter than what one callback brought. -/
def shortReceive : List Act := [.rxInd [1, 2, 3], .recv ⟨true, 2, 200⟩, .read, recvAll]

/-- After two callbacks the second receive returns 0 at once without a timeout.
After a short receive the next one waits with a byte unread. -/
theorem count_out_of_step :
    (⟨⟨⟨true, 64, 200⟩, none, 0⟩, .eok, []⟩ : Result) ∈ (run step .init twoCallbacks).results ∧
      (run step .init shortReceive).pc = .waiting ⟨⟨true, 64, 200⟩, none, 1⟩ ∧
      ¬ InStep (run step .init twoCallbacks) ∧ ¬ InStep (run step .init shortReceive) := by
  have hzero : (⟨⟨⟨true, 64, 200⟩, none, 0⟩, .eok, []⟩ : Result) ∈
      (run step .init twoCallbacks).results := by decide +kernel
  have hwait : (run step .init shortReceive).pc = .waiting ⟨⟨true, 64, 200⟩, none, 1⟩ := by
    decide +kernel
  refine ⟨hzero, hwait, fun h => ?_, fun h => ?_⟩
  · exact absurd (h.zero _ hzero rfl) (by decide)
  · exact absurd (h.waits _ (.inl hwait)) (by decide)

end Hc32Board.Rs485
