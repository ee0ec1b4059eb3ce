import Hc32Board.AiWb2.SendFlow

/-!
# A send that reports a timeout

`aiwb2_send_wait` installs its response object after the data of the chunk was
sent.  A line that the parser takes up before that is ignored, and a release of
the semaphore before the reset is lost.  Then the wait expires although the
module has answered.

`send_no_timeout` is the law that holds: if the parser takes the `OK` of a chunk
up only while the sender waits for it, no answered send ends with a timeout.
`early_ok_lost` is a run in which the parser is faster than the sender.
-/

namespace Hc32Board.AiWb2

open Hc32Board.CodeLib
open Hc32Board.AtClient

/-- There is an `OK` for chunk `k` among the answers. -/
def answered (answers : List Answer) (k : Nat) : Bool :=
  answers.any fun ans => ans.chunk == k && okLine ans.line

/-- The module serves the send.  The lines that are not URCs are the prompt,
while the sender waits for it, and one `OK` for each chunk after its data was
sent.  A wait for a confirmation does not expire before the parser is through
with the `OK`. -/
def Served (s : SendState) (a : SendAct) : Prop :=
  (a = .parser → ∀ line ∈ s.parser.nextAnswer, s.pc = .take .cmd ∨
      (okLine line = true ∧ s.chunks ≠ [] ∧ answered s.taken s.chunks.length = false)) ∧
    (a = .timeout → s.pc = .take .confirm → answered s.processed s.chunks.length = true)

/-- The parser takes an answer up only while the sender waits. -/
def Listening (s : SendState) (a : SendAct) : Prop :=
  a = .parser → s.parser.nextAnswer.isSome = true → s.pc = .take .cmd ∨ s.pc = .take .confirm

instance (s : SendState) (a : SendAct) : Decidable (Served s a) :=
  inferInstanceAs (Decidable ((a = .parser → ∀ line ∈ s.parser.nextAnswer, s.pc = .take .cmd ∨
      (okLine line = true ∧ s.chunks ≠ [] ∧ answered s.taken s.chunks.length = false)) ∧
    (a = .timeout → s.pc = .take .confirm → answered s.processed s.chunks.length = true)))

instance (s : SendState) (a : SendAct) : Decidable (Listening s a) :=
  inferInstanceAs (Decidable (a = .parser → s.parser.nextAnswer.isSome = true →
    s.pc = .take .cmd ∨ s.pc = .take .confirm))

/-! ## Which chunk an answer is for -/

/-- Every answer was taken up after at most the chunks sent so far. -/
structure Bounded (s : SendState) : Prop where
  taken : ∀ ans ∈ s.taken, ans.chunk ≤ s.chunks.length
  processed : ∀ ans ∈ s.processed, ans.chunk ≤ s.chunks.length
  parser : ∀ ans ∈ s.parser.answer, ans.chunk ≤ s.chunks.length

/-- A new chunk has no answer yet. -/
theorem answered_next {answers : List Answer} {k : Nat} (h : ∀ ans ∈ answers, ans.chunk ≤ k) :
    answered answers (k + 1) = false := by
  rw [answered, List.any_eq_false]
  intro ans hans
  have hle := h ans hans
  simp only [Bool.and_eq_true, beq_iff_eq, not_and]
  intro heq
  omega

theorem answered_append_self (answers : List Answer) {line : Bytes} {k : Nat}
    (hok : okLine line = true) : answered (answers ++ [⟨line, k⟩]) k = true := by
  rw [answered, List.any_append]
  simp [hok]

theorem forall_mem_concat {P : Answer → Prop} {answers : List Answer} {ans : Answer}
    (h : ∀ a ∈ answers, P a) (ha : P ans) : ∀ a ∈ answers ++ [ans], P a := by
  intro a hmem
  rcases List.mem_append.mp hmem with hold | hnew
  · exact h a hold
  · rw [List.mem_singleton.mp hnew]; exact ha

theorem Bounded.parserStep {s : SendState} (h : Bounded s) : Bounded (parserStep s) := by
  have hpar := h.parser
  unfold AiWb2.parserStep
  cases hp : s.parser with
  | idle => exact ⟨h.taken, h.processed, nofun⟩
  | reading b => exact h
  | ready line urc =>
    cases urc with
    | some u => exact ⟨h.taken, h.processed, nofun⟩
    | none =>
      dsimp only
      split_ifs
      · refine ⟨forall_mem_concat h.taken (Nat.le_refl _), h.processed, fun a ha => ?_⟩
        rw [← Option.some.inj ha]
      · exact ⟨forall_mem_concat h.taken (Nat.le_refl _),
          forall_mem_concat h.processed (Nat.le_refl _), nofun⟩
  | gotResp ans =>
    rw [hp] at hpar
    dsimp only
    split_ifs
    · exact ⟨h.taken, h.processed, hpar⟩
    · exact ⟨h.taken, forall_mem_concat h.processed (hpar ans rfl), nofun⟩
  | clear ans => rw [hp] at hpar; exact ⟨h.taken, h.processed, hpar⟩
  | release ans =>
    rw [hp] at hpar
    exact ⟨h.taken, forall_mem_concat h.processed (hpar ans rfl), nofun⟩

/-- The sender does not touch the history of the parser, and the number of
chunks only grows. -/
theorem senderStep_history (bfsz : Nat) (ok : Bool) (s : SendState) :
    (senderStep bfsz ok s).parser = s.parser ∧ (senderStep bfsz ok s).taken = s.taken ∧
      (senderStep bfsz ok s).processed = s.processed ∧
      s.chunks.length ≤ (senderStep bfsz ok s).chunks.length := by
  unfold senderStep
  split <;> (try split_ifs) <;> (try split) <;> simp

theorem Bounded.step {bfsz bufsz : Nat} {s : SendState} (h : Bounded s) (a : SendAct) :
    Bounded (sendStep bfsz bufsz s a) := by
  cases a with
  | sender ok =>
    obtain ⟨hp, htaken, hproc, hlen⟩ := senderStep_history bfsz ok s
    refine ⟨?_, ?_, ?_⟩
    · rw [sendStep, htaken]
      exact fun ans hans => (h.taken ans hans).trans hlen
    · rw [sendStep, hproc]
      exact fun ans hans => (h.processed ans hans).trans hlen
    · rw [sendStep, hp]
      exact fun ans hans => (h.parser ans hans).trans hlen
  | timeout => rw [sendStep, timeoutStep]; split <;> exact ⟨h.taken, h.processed, h.parser⟩
  | parser => exact h.parserStep
  | rx ch =>
    rw [sendStep]
    rcases rxCharStep_cases bufsz ch s with heq | ⟨b, p, -, heq, hnone, -⟩
    · rw [heq]; exact h
    · rw [heq]
      exact ⟨h.taken, h.processed, fun ans hans => absurd hans (by rw [hnone]; simp)⟩

/-! ## The wait for a confirmation -/

/-- The last chunk has no answer yet. -/
def Unanswered (s : SendState) : Prop :=
  answered s.taken s.chunks.length = false ∧ answered s.processed s.chunks.length = false

/-- While the sender waits for a confirmation: its response is installed until
an `OK` is taken up, the parser works only on an `OK`, and an `OK` that the
parser is through with has left a token. -/
structure WaitsForOk (s : SendState) : Prop where
  lineNum : s.obj.lineNum = 0
  installed : answered s.taken s.chunks.length = false → s.installed = true
  parser : ∀ ans ∈ s.parser.answer,
    okLine ans.line = true ∧ answered s.taken s.chunks.length = true
  tokens : answered s.processed s.chunks.length = true → s.tokens ≠ []

/-- The sender is on its way to no timeout. -/
def OnTime (s : SendState) : Prop :=
  match s.pc with
  | .create => Unanswered s
  | .status .confirm | .install .confirm => s.obj.lineNum = 0 ∧ Unanswered s
  | .reset .confirm =>
    s.obj.lineNum = 0 ∧ Unanswered s ∧ s.installed = true ∧ s.parser.answer = none
  | .take .confirm => WaitsForOk s
  | .clear .confirm rc _ => rc ≠ .timeout
  | .exit rc => rc ≠ .timeout
  | .done ret => ret ≠ .fail .timeout
  | _ => True

structure WaitInv (s : SendState) : Prop where
  flow : Flow s
  lined : Lined s
  bounded : Bounded s
  onTime : OnTime s

theorem OnTime.sender {bfsz : Nat} {s : SendState} (h : WaitInv s) (ok : Bool) :
    OnTime (senderStep bfsz ok s) := by
  have ht := h.onTime
  unfold OnTime at ht
  unfold senderStep
  cases hpc : s.pc with
  | status st =>
    rw [hpc] at ht
    dsimp only
    split_ifs
    · exact nofun
    · cases st <;> exact ht
  | install st =>
    rw [hpc] at ht
    cases st
    · trivial
    · exact ⟨ht.1, ht.2, rfl, (h.flow.quiet (by rw [hpc]; rfl)).2⟩
  | reset st =>
    rw [hpc] at ht
    cases st
    · trivial
    · obtain ⟨hnum, ⟨-, hproc⟩, hinst, hnone⟩ := ht
      refine ⟨hnum, fun _ => hinst, fun ans hans => ?_, fun hdone => ?_⟩
      · exact absurd hans (by rw [show _ = none from hnone]; nofun)
      · rw [hproc] at hdone
        exact absurd hdone (by decide)
  | take st =>
    rw [hpc] at ht
    dsimp only
    split
    · rw [OnTime, hpc]; exact ht
    · trivial
  | check st ans =>
    cases st
    · trivial
    · show (if _ then Rc.eok else .error) ≠ .timeout
      split_ifs <;> decide
  | clear st rc ans =>
    rw [hpc] at ht
    cases st <;> dsimp only <;> split_ifs
    · trivial
    · exact nofun
    · trivial
    · exact ht
  | data =>
    dsimp only
    split_ifs
    · -- the chunk is new
      have hlen : (s.chunks ++ [curPktSize bfsz s.sentSize]).length = s.chunks.length + 1 :=
        List.length_append
      refine ⟨?_, ?_⟩
      · show answered s.taken (s.chunks ++ [_]).length = false
        rw [hlen]; exact answered_next h.bounded.taken
      · show answered s.processed (s.chunks ++ [_]).length = false
        rw [hlen]; exact answered_next h.bounded.processed
    · exact nofun
  | create =>
    rw [hpc] at ht
    dsimp only
    split_ifs
    · exact ⟨rfl, ht⟩
    · exact nofun
  | exit rc =>
    rw [hpc] at ht
    show (if _ then SendRet.size _ else .fail rc) ≠ _
    split_ifs
    · exact nofun
    · intro heq
      exact ht (SendRet.fail.inj heq)
  | loop => dsimp only; split_ifs <;> first | trivial | exact nofun
  | done ret => rw [hpc] at ht; rw [OnTime, hpc]; exact ht
  | _ => trivial

/-- Without an answer in its hands or before it, the parser changes only its
own place. -/
theorem parserStep_of_no_answer {s : SendState} (hnone : s.parser.answer = none)
    (hnext : s.parser.nextAnswer = none) :
    ∃ p, p.answer = none ∧ parserStep s = { s with parser := p } := by
  unfold parserStep
  cases hp : s.parser with
  | idle => exact ⟨_, rfl, rfl⟩
  | reading b => exact ⟨s.parser, hnone, rfl⟩
  | ready line urc =>
    cases urc with
    | some u => exact ⟨_, rfl, rfl⟩
    | none => rw [hp] at hnext; exact absurd hnext (by simp [Parser.nextAnswer])
  | _ => rw [hp] at hnone; exact absurd hnone (by simp [Parser.answer])

/-- The last byte of a complete line is not the `K` of `OK`. -/
theorem Ended.ne_k {line : Bytes} (h : Ended line) : line.getLast? ≠ some 75 := by
  rcases h with h10 | h62
  · rw [h10]; decide
  · rw [h62]; decide

/-- The parser handles the one `OK` for the chunk to its end. -/
theorem WaitsForOk.parserStep {s : SendState} (h : WaitsForOk s) (hlined : Lined s)
    (hnext : ∀ line ∈ s.parser.nextAnswer,
      okLine line = true ∧ answered s.taken s.chunks.length = false) :
    WaitsForOk (parserStep s) := by
  have hpar := h.parser
  have hline := hlined.2
  unfold AiWb2.parserStep
  cases hp : s.parser with
  | idle => exact ⟨h.lineNum, h.installed, nofun, h.tokens⟩
  | reading b => exact h
  | ready line urc =>
    cases urc with
    | some u => exact ⟨h.lineNum, h.installed, nofun, h.tokens⟩
    | none =>
      obtain ⟨hok, hnot⟩ := hnext line (by rw [hp]; rfl)
      have hnow := answered_append_self s.taken (k := s.chunks.length) hok
      dsimp only
      rw [if_pos (h.installed hnot)]
      refine ⟨h.lineNum, fun _ => h.installed hnot, fun ans hans => ?_, h.tokens⟩
      rw [← Option.some.inj hans]
      exact ⟨hok, hnow⟩
  | gotResp ans =>
    rw [hp] at hpar hline
    obtain ⟨hok, hnow⟩ := hpar ans rfl
    have hended :=
      (handleLine_of_okLine s.endSign s.respStatus h.lineNum hok hline.2.ne_k).1
    dsimp only
    rw [if_pos hended]
    exact ⟨(handleLine_lineNum _ _ _ _).trans h.lineNum, h.installed, hpar, h.tokens⟩
  | clear ans =>
    rw [hp] at hpar
    refine ⟨h.lineNum, fun hnot => ?_, hpar, h.tokens⟩
    have hnow := (hpar ans rfl).2
    rw [show answered s.taken s.chunks.length = false from hnot] at hnow
    exact absurd hnow (by decide)
  | release ans => exact ⟨h.lineNum, h.installed, nofun, fun _ => by simp⟩

/-- A parser without an answer can be anywhere. -/
theorem OnTime.setParser {s : SendState} (h : OnTime s) {p : Parser} (hp : p.answer = none) :
    OnTime { s with parser := p } := by
  unfold OnTime at h ⊢
  cases hpc : s.pc with
  | status st => rw [hpc] at h; cases st <;> exact h
  | install st => rw [hpc] at h; cases st <;> exact h
  | reset st =>
    rw [hpc] at h
    cases st
    · trivial
    · exact ⟨h.1, h.2.1, h.2.2.1, hp⟩
  | take st =>
    rw [hpc] at h
    cases st
    · trivial
    · exact ⟨h.lineNum, h.installed, fun ans hans => absurd hans (by rw [hp]; nofun), h.tokens⟩
  | clear st rc ans => rw [hpc] at h; cases st <;> exact h
  | create => rw [hpc] at h; exact h
  | exit rc => rw [hpc] at h; exact h
  | done ret => rw [hpc] at h; exact h
  | _ => trivial

/-- Outside of the two waits the parser takes no answer up. -/
theorem OnTime.parser_quiet {s : SendState} (h : OnTime s) (hlisten : Listening s .parser)
    (hnone : s.parser.answer = none) (hpc : ∀ st, s.pc ≠ .take st) : OnTime (parserStep s) := by
  have hnext : s.parser.nextAnswer = none := by
    cases hn : s.parser.nextAnswer with
    | none => rfl
    | some line =>
      rcases hlisten rfl (by rw [hn]; rfl) with hcmd | hconf
      · exact absurd hcmd (hpc .cmd)
      · exact absurd hconf (hpc .confirm)
  obtain ⟨p, hp, heq⟩ := parserStep_of_no_answer hnone hnext
  rw [heq]
  exact h.setParser hp

theorem OnTime.parser {s : SendState} (h : WaitInv s) (hserved : Served s .parser)
    (hlisten : Listening s .parser) : OnTime (parserStep s) := by
  have ht := h.onTime
  cases hpc : s.pc with
  | create =>
    exact ht.parser_quiet hlisten (h.flow.quiet (by rw [hpc]; rfl)).2 (by rw [hpc]; nofun)
  | status st =>
    exact ht.parser_quiet hlisten (h.flow.quiet (by rw [hpc]; rfl)).2 (by rw [hpc]; nofun)
  | install st =>
    exact ht.parser_quiet hlisten (h.flow.quiet (by rw [hpc]; rfl)).2 (by rw [hpc]; nofun)
  | reset st =>
    cases st with
    | cmd => rw [OnTime, (parserStep_frame s).1, hpc]; trivial
    | confirm =>
      have hreset := ht
      rw [OnTime, hpc] at hreset
      exact ht.parser_quiet hlisten hreset.2.2.2 (by rw [hpc]; nofun)
  | take st =>
    rw [OnTime, hpc] at ht
    rw [OnTime, (parserStep_frame s).1, hpc]
    cases st with
    | cmd => trivial
    | confirm =>
      refine ht.parserStep h.lined fun line hline => ?_
      rcases hserved.1 rfl line hline with hcmd | hok
      · rw [hpc] at hcmd; exact absurd hcmd (by decide)
      · exact ⟨hok.1, hok.2.2⟩
  | clear st rc ans =>
    rw [OnTime, hpc] at ht
    rw [OnTime, (parserStep_frame s).1, hpc]
    cases st <;> exact ht
  | exit rc =>
    rw [OnTime, hpc] at ht
    rw [OnTime, (parserStep_frame s).1, hpc]
    exact ht
  | done ret =>
    rw [OnTime, hpc] at ht
    rw [OnTime, (parserStep_frame s).1, hpc]
    exact ht
  | _ => rw [OnTime, (parserStep_frame s).1, hpc]; trivial

/-- A wait for a confirmation does not expire: the answer has left a token. -/
theorem OnTime.timeout {s : SendState} (h : OnTime s) (hserved : Served s .timeout) :
    OnTime (timeoutStep s) := by
  unfold timeoutStep
  split
  · rename_i st hpc htok
    cases st with
    | cmd => trivial
    | confirm =>
      rw [OnTime, hpc] at h
      exact absurd htok (h.tokens (hserved.2 rfl hpc))
  · exact h

theorem WaitInv.step {bfsz bufsz : Nat} {s : SendState} (h : WaitInv s) (a : SendAct)
    (hserved : Served s a) (hlisten : Listening s a) : WaitInv (sendStep bfsz bufsz s a) := by
  refine ⟨h.flow.step a, h.lined.step a, h.bounded.step a, ?_⟩
  cases a with
  | sender ok => exact .sender h ok
  | timeout => exact h.onTime.timeout hserved
  | parser => exact .parser h hserved hlisten
  | rx ch =>
    rw [sendStep]
    rcases rxCharStep_cases bufsz ch s with heq | ⟨b, p, -, heq, hnone, -⟩
    · rw [heq]; exact h.onTime
    · rw [heq]; exact h.onTime.setParser hnone

theorem Begins.waitInv {s : SendState} (h : Begins s) : WaitInv s := by
  refine ⟨h.flow, h.lined, ⟨?_, ?_, ?_⟩, ?_⟩
  · rw [h.taken]; exact nofun
  · rw [h.processed]; exact nofun
  · rw [h.parser]; exact nofun
  · rw [OnTime, h.pc]; trivial

/-- If the module serves the send and the parser takes the answers up only while
the sender waits for them, the send does not end with a timeout. -/
theorem send_no_timeout (bfsz bufsz : Nat) (s : SendState) (acts : List SendAct)
    (hbegin : Begins s) (hserved : Along (sendStep bfsz bufsz) Served s acts)
    (hlisten : Along (sendStep bfsz bufsz) Listening s acts) :
    (run (sendStep bfsz bufsz) s acts).pc ≠ .done (.fail .timeout) := by
  have hinv := run_invariant (I := WaitInv) (fun _ a h hP => h.step a hP.1 hP.2) acts s
    hbegin.waitInv (hserved.and hlisten)
  intro hdone
  have ht := hinv.onTime
  rw [OnTime, hdone] at ht
  exact ht rfl

theorem send_no_timeout_ok :
    Along (sendStep 5 2048) Served sendStart (oneChunk ">" "OK\r\n") ∧
      Along (sendStep 5 2048) Listening sendStart (oneChunk ">" "OK\r\n") ∧
      (run (sendStep 5 2048) sendStart (oneChunk ">" "OK\r\n")).pc ≠ .done (.fail .timeout) := by
  have hserved : Along (sendStep 5 2048) Served sendStart (oneChunk ">" "OK\r\n") := by
    decide +kernel
  have hlistening : Along (sendStep 5 2048) Listening sendStart (oneChunk ">" "OK\r\n") := by
    decide +kernel
  exact ⟨hserved, hlistening, send_no_timeout 5 2048 sendStart (oneChunk ">" "OK\r\n")
    begins_sendStart hserved hlistening⟩

/-- The `OK` comes when the data is sent and `aiwb2_send_wait` has not started:
ten steps of the sender to the data, four to the wait, and two after it. -/
def earlyOk : List SendAct :=
  senderSteps 6 ++ parserLine ">" ++ senderSteps 4 ++ parserLine "OK\r\n" ++ senderSteps 4 ++
    [.timeout] ++ senderSteps 2

/-- The module has answered every command and every chunk, and the send ends
with a timeout. -/
theorem early_ok_lost :
    Along (sendStep 5 2048) Served sendStart earlyOk ∧
      (run (sendStep 5 2048) sendStart earlyOk).processed = [⟨ascii ">", 0⟩, ⟨ascii "OK\r\n", 1⟩] ∧
      (run (sendStep 5 2048) sendStart earlyOk).pc = .done (.fail .timeout) := by
  decide +kernel

end Hc32Board.AiWb2
