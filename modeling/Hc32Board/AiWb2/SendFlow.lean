import Hc32Board.AiWb2.SendMachine

/-!
# The flow of a response

What holds of a send in every interleaving with the parser.

* `Flow`: a response object is passed from the sender to the parser and back as
  one token.  Either it is installed in the client, or the parser holds it, or
  the semaphore has been released, and outside of the two waits the parser
  holds none.
* `Counts`: the chunks that were sent and the bytes that were counted agree.
-/

namespace Hc32Board.AiWb2

open Hc32Board.CodeLib
open Hc32Board.AtClient

/-! ## The token -/

/-- What the place of the sender says about its response object. -/
inductive Zone where
  /-- No response object is installed. -/
  | quiet
  /-- It is installed, and the semaphore is not reset yet. -/
  | arming
  | waiting
  /-- The send has failed or is over. -/
  | ended
deriving DecidableEq, Repr

def Pc.zone : Pc → Zone
  | .reset _ => .arming
  | .write | .take _ => .waiting
  | .clear _ rc _ => if rc = .eok then .quiet else .ended
  | .exit _ | .done _ => .ended
  | _ => .quiet

/-- The answer that the parser works on. -/
def Parser.answer : Parser → Option Answer
  | .gotResp ans | .clear ans | .release ans => some ans
  | _ => none

theorem Parser.ne_gotResp {p : Parser} (h : p.answer = none) (ans : Answer) :
    p ≠ .gotResp ans := by
  intro hp
  rw [hp] at h
  exact absurd h (by simp [Parser.answer])

/-- The line that the parser is about to take up as an answer. -/
def Parser.nextAnswer : Parser → Option Bytes
  | .ready line none => some line
  | _ => none

/-- While the parser works on an answer, `client->resp` is set until the parser
clears it. -/
def Linked (s : SendState) : Prop :=
  match s.parser with
  | .gotResp _ | .clear _ => s.installed = true
  | .release _ => s.installed = false
  | _ => True

def Flow (s : SendState) : Prop :=
  match s.pc.zone with
  | .quiet => s.installed = false ∧ s.parser.answer = none
  | .arming => Linked s
  | .waiting => Linked s ∧ (s.tokens ≠ [] → s.installed = false ∧ s.parser.answer = none)
  | .ended => True

theorem Flow.quiet {s : SendState} (h : Flow s) (hz : s.pc.zone = .quiet) :
    s.installed = false ∧ s.parser.answer = none := by
  rw [Flow, hz] at h
  exact h

theorem Flow.of_quiet {s : SendState} (hz : s.pc.zone = .quiet)
    (h : s.installed = false ∧ s.parser.answer = none) : Flow s := by
  rw [Flow, hz]
  exact h

theorem Flow.of_ended {s : SendState} (hz : s.pc.zone = .ended) : Flow s := by
  rw [Flow, hz]
  trivial

theorem linked_of_answer_none {s : SendState} (h : s.parser.answer = none) : Linked s := by
  unfold Linked
  split <;> first | trivial | (rename_i hp; rw [hp] at h; exact absurd h (by simp [Parser.answer]))

theorem Flow.sender {bfsz : Nat} {s : SendState} (h : Flow s) (ok : Bool) :
    Flow (senderStep bfsz ok s) := by
  unfold senderStep
  cases hpc : s.pc with
  | enter => exact .of_quiet rfl (h.quiet (by rw [hpc]; rfl))
  | loop =>
    have hq := h.quiet (by rw [hpc]; rfl)
    dsimp only
    split_ifs
    · exact .of_quiet rfl hq
    · exact .of_ended rfl
    · exact .of_ended rfl
  | status st =>
    have hq := h.quiet (by rw [hpc]; rfl)
    dsimp only
    split_ifs
    · exact .of_ended rfl
    · exact .of_quiet rfl hq
  | install st =>
    -- the parser holds nothing when the object is installed
    exact linked_of_answer_none (h.quiet (by rw [hpc]; rfl)).2
  | reset st =>
    rw [Flow, hpc] at h
    cases st <;> exact ⟨h, fun htok => absurd rfl htok⟩
  | write =>
    rw [Flow, hpc] at h
    exact h
  | take st =>
    rw [Flow, hpc] at h
    dsimp only
    split
    · rw [Flow, hpc]
      exact h
    · -- the token that is taken is the one of this response
      rename_i htok
      exact .of_quiet rfl (h.2 (by rw [htok]; exact List.cons_ne_nil _ _))
  | check st ans =>
    have hq := h.quiet (by rw [hpc]; rfl)
    dsimp only
    split_ifs
    · exact .of_quiet rfl hq
    · exact .of_ended rfl
  | clear st rc ans =>
    by_cases hrc : rc = .eok
    · have hq := h.quiet (by rw [hpc, Pc.zone, if_pos hrc])
      cases st
      · exact .of_quiet (by simp [hrc, Pc.zone]) ⟨rfl, hq.2⟩
      · simp only [if_pos hrc]
        exact .of_quiet rfl ⟨rfl, hq.2⟩
    · cases st
      · exact .of_ended (by simp [hrc, Pc.zone])
      · simp only [if_neg hrc]
        exact .of_ended rfl
  | data =>
    have hq := h.quiet (by rw [hpc]; rfl)
    dsimp only
    split_ifs
    · exact .of_quiet rfl hq
    · exact .of_ended rfl
  | create =>
    have hq := h.quiet (by rw [hpc]; rfl)
    dsimp only
    split_ifs
    · exact .of_quiet rfl hq
    · exact .of_ended rfl
  | exit rc => exact .of_ended rfl
  | done ret => exact .of_ended (by rw [hpc]; rfl)

/-- The parser does not touch what belongs to the sender. -/
theorem parserStep_frame (s : SendState) :
    (parserStep s).pc = s.pc ∧ (parserStep s).sentSize = s.sentSize ∧
      (parserStep s).endSign = s.endSign ∧ (parserStep s).chunks = s.chunks ∧
      (parserStep s).acks = s.acks := by
  unfold parserStep
  split <;> (try dsimp only) <;> (try split_ifs) <;> exact ⟨rfl, rfl, rfl, rfl, rfl⟩

theorem parserStep_tokens (s : SendState) :
    (parserStep s).tokens = s.tokens ∨
      ∃ ans, s.parser = .release ans ∧ (parserStep s).tokens = s.tokens ++ [ans] := by
  cases hp : s.parser with
  | release ans => exact .inr ⟨ans, rfl, by rw [parserStep, hp]⟩
  | ready line urc =>
    refine .inl ?_
    cases urc <;> rw [parserStep, hp]
    dsimp only
    split_ifs <;> rfl
  | gotResp ans =>
    refine .inl ?_
    rw [parserStep, hp]
    dsimp only
    split_ifs <;> rfl
  | _ => exact .inl (by rw [parserStep, hp])

theorem Linked.parserStep {s : SendState} (h : Linked s) : Linked (parserStep s) := by
  unfold Linked at h
  unfold AiWb2.parserStep
  cases hp : s.parser with
  | idle => trivial
  | reading b => rw [Linked, hp]; trivial
  | ready line urc =>
    cases urc with
    | some u => trivial
    | none =>
      dsimp only
      split_ifs with hinst
      · exact hinst
      · trivial
  | gotResp ans =>
    rw [hp] at h
    dsimp only
    split_ifs
    · exact h
    · trivial
  | clear ans => exact rfl
  | release ans => trivial

/-- Where no response is installed, the parser takes none up. -/
theorem parserStep_quiet {s : SendState} (h : s.installed = false ∧ s.parser.answer = none) :
    (parserStep s).installed = false ∧ (parserStep s).parser.answer = none := by
  obtain ⟨hinst, hnone⟩ := h
  unfold parserStep
  cases hp : s.parser with
  | idle => exact ⟨hinst, rfl⟩
  | reading b => exact ⟨hinst, hnone⟩
  | ready line urc =>
    cases urc with
    | some u => exact ⟨hinst, rfl⟩
    | none =>
      dsimp only
      rw [if_neg (by rw [hinst]; decide)]
      exact ⟨hinst, rfl⟩
  | _ => rw [hp] at hnone; exact absurd hnone (by simp [Parser.answer])

/-- The token of a response comes when the parser has given it back. -/
theorem parserStep_waiting {s : SendState} (hlink : Linked s)
    (h : s.tokens ≠ [] → s.installed = false ∧ s.parser.answer = none)
    (htok : (parserStep s).tokens ≠ []) :
    (parserStep s).installed = false ∧ (parserStep s).parser.answer = none := by
  rcases parserStep_tokens s with heq | ⟨ans, hp, -⟩
  · rw [heq] at htok
    exact parserStep_quiet (h htok)
  · rw [Linked, hp] at hlink
    rw [parserStep, hp]
    exact ⟨hlink, rfl⟩

theorem Flow.parser {s : SendState} (h : Flow s) : Flow (parserStep s) := by
  unfold Flow at h ⊢
  rw [(parserStep_frame s).1]
  cases hz : s.pc.zone with
  | quiet => rw [hz] at h; exact parserStep_quiet h
  | arming => rw [hz] at h; exact Linked.parserStep h
  | waiting => rw [hz] at h; exact ⟨h.1.parserStep, parserStep_waiting h.1 h.2⟩
  | ended => trivial

theorem Flow.timeout {s : SendState} (h : Flow s) : Flow (timeoutStep s) := by
  unfold timeoutStep
  split
  · exact .of_ended rfl
  · exact h

/-- A character changes only where the parser is in its line. -/
theorem rxCharStep_cases (bufsz : Nat) (ch : UInt8) (s : SendState) :
    rxCharStep bufsz ch s = s ∨ ∃ b p, s.parser = .reading b ∧
      rxCharStep bufsz ch s = { s with parser := p } ∧ p.answer = none ∧
      ∀ line urc, p = .ready line urc → b.rxChar bufsz s.endSign ch = .line line urc := by
  unfold rxCharStep
  split
  · rename_i b hp
    cases hr : b.rxChar bufsz s.endSign ch with
    | more b' => exact .inr ⟨b, _, hp, rfl, rfl, nofun⟩
    | line line urc =>
      refine .inr ⟨b, _, hp, rfl, rfl, fun line' urc' heq => ?_⟩
      obtain ⟨rfl, rfl⟩ := Parser.ready.inj heq
      exact hr
    | full => exact .inr ⟨b, _, hp, rfl, rfl, nofun⟩
  · exact .inl rfl

theorem Flow.rx {bufsz : Nat} {s : SendState} (h : Flow s) (ch : UInt8) :
    Flow (rxCharStep bufsz ch s) := by
  rcases rxCharStep_cases bufsz ch s with heq | ⟨b, p, hp, heq, hnone, -⟩
  · rw [heq]; exact h
  · rw [heq]
    have hlink : Linked { s with parser := p } := linked_of_answer_none hnone
    unfold Flow at h ⊢
    cases hz : s.pc.zone <;> rw [hz] at h <;> dsimp only at h ⊢
    · exact ⟨h.1, hnone⟩
    · exact hlink
    · exact ⟨hlink, fun htok => ⟨(h.2 htok).1, hnone⟩⟩

theorem Flow.step {bfsz bufsz : Nat} {s : SendState} (h : Flow s) (a : SendAct) :
    Flow (sendStep bfsz bufsz s a) := by
  cases a with
  | sender ok => exact h.sender ok
  | timeout => exact h.timeout
  | parser => exact h.parser
  | rx ch => exact h.rx ch

/-! ## The lines -/

/-- The line was completed by a line feed or by the end sign of a send. -/
def Ended (line : Bytes) : Prop := line.getLast? = some 10 ∨ line.getLast? = some 62

/-- The parser works on complete lines, and answers are not URCs. -/
def Lined (s : SendState) : Prop :=
  (s.endSign = 0 ∨ s.endSign = 62) ∧
    match s.parser with
    | .ready line urc => urc = getUrcObj line ∧ (urc = none → Ended line)
    | .gotResp ans | .clear ans | .release ans => getUrcObj ans.line = none ∧ Ended ans.line
    | _ => True

theorem Lined.sender {bfsz : Nat} {s : SendState} (h : Lined s) (ok : Bool) :
    Lined (senderStep bfsz ok s) := by
  have hframe : (senderStep bfsz ok s).parser = s.parser ∧
      ((senderStep bfsz ok s).endSign = s.endSign ∨ (senderStep bfsz ok s).endSign = 0 ∨
        (senderStep bfsz ok s).endSign = 62) := by
    unfold senderStep
    split <;> (try split_ifs) <;> (try split) <;> simp
  unfold Lined
  rw [hframe.1]
  refine ⟨?_, h.2⟩
  rcases hframe.2 with heq | heq
  · rw [heq]; exact h.1
  · exact heq

theorem Lined.parser {s : SendState} (h : Lined s) : Lined (parserStep s) := by
  obtain ⟨hsign, h⟩ := h
  unfold Lined parserStep
  cases hp : s.parser with
  | ready line urc =>
    rw [hp] at h
    cases urc with
    | some u => exact ⟨hsign, trivial⟩
    | none =>
      dsimp only
      split_ifs
      · exact ⟨hsign, h.1.symm, h.2 rfl⟩
      · exact ⟨hsign, trivial⟩
  | gotResp ans =>
    rw [hp] at h
    dsimp only
    split_ifs
    · exact ⟨hsign, h⟩
    · exact ⟨hsign, trivial⟩
  | clear ans => rw [hp] at h; exact ⟨hsign, h⟩
  | reading b => dsimp only; rw [hp]; exact ⟨hsign, trivial⟩
  | _ => exact ⟨hsign, trivial⟩

theorem Lined.rx {bufsz : Nat} {s : SendState} (h : Lined s) (ch : UInt8) :
    Lined (rxCharStep bufsz ch s) := by
  rcases rxCharStep_cases bufsz ch s with heq | ⟨b, p, hp, heq, hnone, hline⟩
  · rw [heq]; exact h
  · rw [heq]
    refine ⟨h.1, ?_⟩
    cases p with
    | ready line urc =>
      obtain ⟨hurc, hlast, hend⟩ := rxChar_line (hline line urc rfl)
      refine ⟨hurc, fun hn => ?_⟩
      unfold Ended
      rw [hlast]
      rcases hend hn with h10 | hs
      · exact .inl (by rw [h10])
      · cases h.1 with
        | inl h0 => exact absurd h0 hs.1
        | inr h62 => exact .inr (by rw [hs.2, h62])
    | idle => trivial
    | reading b' => trivial
    | _ => exact absurd hnone (by simp [Parser.answer])

theorem Lined.step {bfsz bufsz : Nat} {s : SendState} (h : Lined s) (a : SendAct) :
    Lined (sendStep bfsz bufsz s a) := by
  cases a with
  | sender ok => exact h.sender ok
  | timeout => rw [sendStep, timeoutStep]; split <;> exact h
  | parser => exact h.parser
  | rx ch => exact h.rx ch

/-! ## The start -/

/-- The state in which `aiwb2_socket_send` is called.  No response is expected,
and the parser works on none: it is between two lines, or in a line, or has a
line that it has not taken up.  The semaphore may have been released before. -/
structure Begins (s : SendState) : Prop where
  pc : s.pc = .enter
  sentSize : s.sentSize = 0
  chunks : s.chunks = []
  acks : s.acks = []
  taken : s.taken = []
  processed : s.processed = []
  installed : s.installed = false
  parser : s.parser.answer = none
  lined : Lined s

theorem Begins.flow {s : SendState} (h : Begins s) : Flow s :=
  .of_quiet (by rw [h.pc]; rfl) ⟨h.installed, h.parser⟩

/-- A start with the parser between two lines. -/
def sendStart : SendState where
  pc := .enter
  sentSize := 0
  endSign := 0
  installed := false
  obj := atCreateResp 0 0
  respStatus := .ok
  tokens := []
  parser := .idle
  chunks := []
  acks := []
  taken := []
  processed := []

theorem begins_sendStart : Begins sendStart :=
  ⟨rfl, rfl, rfl, rfl, rfl, rfl, rfl, rfl, .inl rfl, trivial⟩

/-- The sender takes `n` steps that succeed. -/
def senderSteps (n : Nat) : List SendAct := List.replicate n (.sender true)

/-- The parser reads a line, takes it up and handles it to the end. -/
def parserLine (line : String) : List SendAct :=
  .parser :: (ascii line).map .rx ++ List.replicate 4 .parser

/-- A send of one chunk whose prompt is `prompt` and which is confirmed by
`confirm`: six steps to the wait for the prompt, eight to the wait for the
confirmation, and five to the end. -/
def oneChunk (prompt confirm : String) : List SendAct :=
  senderSteps 6 ++ parserLine prompt ++ senderSteps 8 ++ parserLine confirm ++ senderSteps 5

end Hc32Board.AiWb2
