import Hc32Board.AiWb2.SendFlow

/-!
# A send that reports success

`aiwb2_socket_send` arms the end sign `>` for the prompt and leaves it armed
for the whole send.  While `aiwb2_send_wait` waits for `OK`, the parser takes
every line that ends in `>` for the end of the response, and the chunk counts
as confirmed.

`send_confirmed` is the law that holds: if no line that ends in `>` is taken up
for a confirmation, then a send that reports success has seen, for each chunk
and after its data was sent, a line that begins with `OK`.
`prompt_taken_for_ok` is a run without that condition.
-/

namespace Hc32Board.AiWb2

open Hc32Board.CodeLib
open Hc32Board.AtClient

/-! ## The chunks -/

/-- A chunk is sent and not counted yet. -/
def Pc.ahead : Pc → Bool
  | .create => true
  | .status st | .install st | .reset st | .take st | .check st _ | .clear st _ _ => st == .confirm
  | _ => false

/-- All chunks that were sent are counted. -/
def Even (s : SendState) : Prop :=
  s.chunks.sum = s.sentSize ∧ s.chunks.length = s.acks.length

/-- All but the last chunk that was sent are counted. -/
def Ahead (bfsz : Nat) (s : SendState) : Prop :=
  s.chunks.sum = s.sentSize + curPktSize bfsz s.sentSize ∧ s.chunks.length = s.acks.length + 1

def Counts (bfsz : Nat) (s : SendState) : Prop :=
  match s.pc with
  | .clear st rc ans =>
    rc = .eok → s.sentSize ≤ bfsz ∧ ans.isSome = true ∧
      if st = .confirm then Ahead bfsz s else Even s
  | .exit rc => rc = .eok → s.sentSize = bfsz ∧ Even s
  | .done ret =>
    ∀ n, ret = .size n → n = toInt bfsz ∧ s.chunks.sum = bfsz ∧ s.chunks.length = s.acks.length
  | pc => s.sentSize ≤ bfsz ∧ if pc.ahead then Ahead bfsz s else Even s

theorem Counts.sender {bfsz : Nat} {s : SendState} (h : Counts bfsz s) (ok : Bool) :
    Counts bfsz (senderStep bfsz ok s) := by
  unfold Counts at h
  unfold senderStep
  cases hpc : s.pc with
  | enter => rw [hpc] at h; exact h
  | loop =>
    rw [hpc] at h
    dsimp only
    split_ifs with hlt
    · exact h
    · exact nofun
    · exact fun _ => ⟨Nat.le_antisymm h.1 (Nat.le_of_not_lt hlt), h.2⟩
  | status st =>
    rw [hpc] at h
    dsimp only
    split_ifs
    · exact nofun
    · exact h
  | install st => rw [hpc] at h; exact h
  | reset st => rw [hpc] at h; cases st <;> exact h
  | write => rw [hpc] at h; exact h
  | take st =>
    rw [hpc] at h
    dsimp only
    split
    · rw [Counts, hpc]; exact h
    · exact h
  | check st ans =>
    rw [hpc] at h
    cases st <;> exact fun _ => ⟨h.1, rfl, h.2⟩
  | clear st rc ans =>
    rw [hpc] at h
    cases st with
    | cmd =>
      dsimp only
      split_ifs with hrc
      · exact ⟨(h hrc).1, (h hrc).2.2⟩
      · exact nofun
    | confirm =>
      dsimp only
      split_ifs with hrc
      · -- the chunk is counted, and its answer is recorded
        obtain ⟨hle, hsome, hsum, hlen⟩ := h hrc
        obtain ⟨a, rfl⟩ := Option.isSome_iff_exists.mp hsome
        have hcur := curPktSize_le bfsz s.sentSize
        refine ⟨?_, hsum, ?_⟩
        · show s.sentSize + curPktSize bfsz s.sentSize ≤ bfsz
          omega
        · show s.chunks.length = (s.acks ++ [a]).length
          rw [List.length_append, hlen]; rfl
      · exact fun heok => absurd heok hrc
  | data =>
    rw [hpc] at h
    dsimp only
    split_ifs
    · obtain ⟨hle, hsum, hlen⟩ := h
      refine ⟨hle, ?_, ?_⟩
      · show (s.chunks ++ [_]).sum = _
        rw [List.sum_append, hsum, List.sum_singleton]
      · show (s.chunks ++ [_]).length = _
        rw [List.length_append, hlen]; rfl
    · exact nofun
  | create =>
    rw [hpc] at h
    dsimp only
    split_ifs
    · exact h
    · exact nofun
  | exit rc =>
    rw [hpc] at h
    dsimp only
    split_ifs with hrc
    · intro n hn
      obtain ⟨hsent, hsum, hlen⟩ := h hrc
      obtain rfl := SendRet.size.inj hn
      exact ⟨by rw [hsent], hsum.trans hsent, hlen⟩
    · exact nofun
  | done ret => dsimp only; rw [Counts, hpc]; rw [hpc] at h; exact h

theorem Counts.step {bfsz bufsz : Nat} {s : SendState} (h : Counts bfsz s) (a : SendAct) :
    Counts bfsz (sendStep bfsz bufsz s a) := by
  cases a with
  | sender ok => exact h.sender ok
  | timeout =>
    rw [sendStep, timeoutStep]
    split
    · intro hrc
      exact absurd hrc (by simp)
    · exact h
  | parser =>
    obtain ⟨hpc, hsize, -, hchunks, hacks⟩ := parserStep_frame s
    rw [sendStep, Counts, Even, Ahead, hpc, hsize, hchunks, hacks]
    exact h
  | rx ch =>
    rw [sendStep]
    rcases rxCharStep_cases bufsz ch s with heq | ⟨b, p, -, heq, -⟩
    · rw [heq]; exact h
    · rw [heq]; exact h

/-! ## The confirmations -/

/-- The answer was taken up after the data of the last chunk, and does not end
in `>`. -/
def Seen (s : SendState) (ans : Answer) : Prop :=
  ans.chunk = s.chunks.length ∧ getUrcObj ans.line = none ∧ endsIn ans.line 62 = false

/-- If the response is a success, the answer is the reason. -/
def Confirms (s : SendState) (ans : Answer) : Prop :=
  Seen s ans ∧ (s.respStatus = .ok → okLine ans.line = true)

/-- The answer that the parser works on, while the sender waits for a
confirmation. -/
def InParser (s : SendState) : Prop :=
  match s.parser with
  | .gotResp ans => Seen s ans
  | .clear ans | .release ans => Confirms s ans
  | _ => True

/-- Every answer on its way to the sender confirms the last chunk. -/
def Confirming (s : SendState) : Prop :=
  match s.pc with
  | .status .confirm | .install .confirm => s.obj.lineNum = 0
  | .reset .confirm => s.obj.lineNum = 0 ∧ InParser s
  | .take .confirm => s.obj.lineNum = 0 ∧ InParser s ∧ ∀ ans ∈ s.tokens, Confirms s ans
  | .check .confirm ans => Confirms s ans
  | .clear .confirm rc ans =>
    rc = .eok → ∀ a, ans = some a → Seen s a ∧ okLine a.line = true
  | _ => True

/-- The answers recorded so far confirm their chunks. -/
def Acked (acks : List Answer) : Prop :=
  ∀ k ans, acks[k]? = some ans →
    ans.chunk = k + 1 ∧ getUrcObj ans.line = none ∧ endsIn ans.line 62 = false ∧
      okLine ans.line = true

/-- The end sign is armed from the first to the last step of the send. -/
def Armed (s : SendState) : Prop :=
  match s.pc with
  | .enter | .done _ => True
  | _ => s.endSign = 62

structure SendInv (bfsz : Nat) (s : SendState) : Prop where
  flow : Flow s
  lined : Lined s
  counts : Counts bfsz s
  armed : Armed s
  confirming : Confirming s
  acked : Acked s.acks

/-- No line that ends in `>` is taken up while the response for a confirmation
is installed. -/
def NoPromptLeft (s : SendState) (a : SendAct) : Prop :=
  a = .parser → s.installed = true → s.obj.lineNum = 0 →
    ∀ line ∈ s.parser.nextAnswer, endsIn line 62 = false

instance (s : SendState) (a : SendAct) : Decidable (NoPromptLeft s a) :=
  inferInstanceAs (Decidable (a = .parser → s.installed = true → s.obj.lineNum = 0 →
    ∀ line ∈ s.parser.nextAnswer, endsIn line 62 = false))

theorem inParser_of_answer_none {s : SendState} (h : s.parser.answer = none) : InParser s := by
  unfold InParser
  split <;> first | trivial | (rename_i hp; rw [hp] at h; exact absurd h (by simp [Parser.answer]))

theorem acked_append {s : SendState} {ans : Answer} (h : Acked s.acks) (hseen : Seen s ans)
    (hok : okLine ans.line = true) (hlen : s.chunks.length = s.acks.length + 1) :
    Acked (s.acks ++ [ans]) := by
  intro k a ha
  rw [List.getElem?_append] at ha
  split_ifs at ha with hk
  · exact h k a ha
  · obtain ⟨hlt, rfl⟩ := List.getElem?_eq_some_iff.mp ha
    rw [List.length_singleton] at hlt
    obtain ⟨hchunk, hurc, hend⟩ := hseen
    simp only [List.getElem_singleton]
    exact ⟨by omega, hurc, hend, hok⟩

theorem Confirming.sender {bfsz : Nat} {s : SendState} (h : SendInv bfsz s) (ok : Bool) :
    Confirming (senderStep bfsz ok s) := by
  have hc := h.confirming
  unfold Confirming at hc
  unfold senderStep
  cases hpc : s.pc with
  | status st =>
    rw [hpc] at hc
    dsimp only
    split_ifs
    · trivial
    · cases st <;> exact hc
  | install st =>
    rw [hpc] at hc
    cases st
    · trivial
    · exact ⟨hc, inParser_of_answer_none (h.flow.quiet (by rw [hpc]; rfl)).2⟩
  | reset st =>
    rw [hpc] at hc
    cases st
    · trivial
    · exact ⟨hc.1, hc.2, nofun⟩
  | take st =>
    rw [hpc] at hc
    dsimp only
    split
    · rw [Confirming, hpc]; exact hc
    · rename_i ans tokens htok
      cases st
      · trivial
      · exact hc.2.2 ans (by rw [htok]; exact List.mem_cons_self)
  | check st ans =>
    rw [hpc] at hc
    cases st
    · trivial
    · intro hrc a ha
      obtain rfl := Option.some.inj ha
      refine ⟨hc.1, hc.2 ?_⟩
      by_contra hstatus
      rw [if_neg hstatus] at hrc
      exact absurd hrc (by decide)
  | clear st rc ans =>
    cases st <;> dsimp only <;> split_ifs <;> trivial
  | create =>
    dsimp only
    split_ifs
    · exact rfl
    · trivial
  | loop => dsimp only; split_ifs <;> trivial
  | data => dsimp only; split_ifs <;> trivial
  | done ret => rw [Confirming, hpc]; trivial
  | _ => trivial

/-- Only the end of a successful wait adds an answer. -/
theorem senderStep_acks (bfsz : Nat) (ok : Bool) (s : SendState) :
    (senderStep bfsz ok s).acks = s.acks ∨
      ∃ ans, s.pc = .clear .confirm .eok ans ∧
        (senderStep bfsz ok s).acks = s.acks ++ ans.toList := by
  unfold senderStep
  cases hpc : s.pc with
  | clear st rc ans =>
    cases st with
    | cmd => exact .inl rfl
    | confirm =>
      dsimp only
      split_ifs with hrc
      · exact .inr ⟨ans, by rw [hrc], rfl⟩
      · exact .inl rfl
  | reset st => cases st <;> exact .inl rfl
  | take st => dsimp only; split <;> exact .inl rfl
  | _ =>
    dsimp only
    (try split_ifs) <;> exact .inl rfl

theorem Acked.sender {bfsz : Nat} {s : SendState} (h : SendInv bfsz s) (ok : Bool) :
    Acked (senderStep bfsz ok s).acks := by
  rcases senderStep_acks bfsz ok s with heq | ⟨ans, hpc, heq⟩
  · rw [heq]; exact h.acked
  · have hcounts := h.counts
    have hconf := h.confirming
    rw [Counts, hpc] at hcounts
    rw [Confirming, hpc] at hconf
    obtain ⟨-, hsome, -, hlen⟩ := hcounts rfl
    obtain ⟨a, rfl⟩ := Option.isSome_iff_exists.mp hsome
    obtain ⟨hseen, hok⟩ := hconf rfl a rfl
    rw [heq]
    exact acked_append h.acked hseen hok hlen

theorem Armed.sender {bfsz : Nat} {s : SendState} (h : Armed s) (ok : Bool) :
    Armed (senderStep bfsz ok s) := by
  unfold Armed at h
  unfold senderStep
  cases hpc : s.pc with
  | reset st => rw [hpc] at h; cases st <;> exact h
  | take st =>
    rw [hpc] at h
    dsimp only
    split
    · rw [Armed, hpc]; exact h
    · exact h
  | clear st rc ans => rw [hpc] at h; cases st <;> dsimp only <;> split_ifs <;> exact h
  | enter => rfl
  | exit rc => trivial
  | done ret => rw [Armed, hpc]; trivial
  | _ =>
    rw [hpc] at h
    dsimp only
    (try split_ifs) <;> exact h

/-- What the parser does to an answer for a confirmation. -/
theorem InParser.step {s : SendState} (hin : InParser s) (hlined : Lined s)
    (hsign : s.endSign = 62) (hnum : s.obj.lineNum = 0)
    (hprompt : NoPromptLeft s .parser) : InParser (parserStep s) := by
  unfold InParser at hin
  cases hp : s.parser with
  | idle => rw [parserStep, hp]; trivial
  | reading b => rw [InParser, parserStep, hp]; dsimp only; rw [hp]; trivial
  | ready line urc =>
    cases urc with
    | some u => rw [parserStep, hp]; trivial
    | none =>
      rw [parserStep, hp]
      dsimp only
      split_ifs with hinst
      · have hline := hlined.2
        rw [hp] at hline
        exact ⟨rfl, hline.1.symm, hprompt rfl hinst hnum line (by rw [hp]; rfl)⟩
      · trivial
  | gotResp ans =>
    rw [hp] at hin
    rw [parserStep, hp]
    dsimp only
    split_ifs with hended
    · refine ⟨hin, fun hok => ?_⟩
      exact okLine_of_handleLine hnum (by rw [hsign]; exact hin.2.2) hended hok
    · trivial
  | clear ans => rw [hp] at hin; rw [parserStep, hp]; exact hin
  | release ans => rw [parserStep, hp]; trivial

theorem parserStep_lineNum (s : SendState) : (parserStep s).obj.lineNum = s.obj.lineNum := by
  unfold parserStep
  split <;> (try dsimp only) <;> (try split_ifs) <;> first | rfl | exact handleLine_lineNum _ _ _ _

/-- The status changes only while the parser handles a line. -/
theorem parserStep_respStatus {s : SendState} (h : ∀ ans, s.parser ≠ .gotResp ans) :
    (parserStep s).respStatus = s.respStatus := by
  unfold parserStep
  split <;> (try split_ifs) <;> first | rfl | exact absurd ‹_› (h _)

theorem Seen.parser {s : SendState} {ans : Answer} (h : Seen s ans) : Seen (parserStep s) ans := by
  rw [Seen, (parserStep_frame s).2.2.2.1]
  exact h

theorem Confirms.parser {s : SendState} {ans : Answer} (h : Confirms s ans)
    (hgot : ∀ a, s.parser ≠ .gotResp a) : Confirms (parserStep s) ans := by
  rw [Confirms, parserStep_respStatus hgot]
  exact ⟨h.1.parser, h.2⟩

/-- The tokens of a wait for a confirmation stay confirmations: a line is
handled only while there is no token, and a new token comes from the parser. -/
theorem tokens_confirm {s : SendState}
    (hflow : s.tokens ≠ [] → s.installed = false ∧ s.parser.answer = none) (hin : InParser s)
    (htok : ∀ ans ∈ s.tokens, Confirms s ans) :
    ∀ ans ∈ (parserStep s).tokens, Confirms (parserStep s) ans := by
  intro ans hans
  rcases parserStep_tokens s with heq | ⟨b, hrel, heq⟩
  · rw [heq] at hans
    have hnone := (hflow (List.ne_nil_of_mem hans)).2
    exact (htok ans hans).parser (Parser.ne_gotResp hnone)
  · rw [heq] at hans
    rw [InParser, hrel] at hin
    have hgot : ∀ a, s.parser ≠ .gotResp a := by rw [hrel]; nofun
    rcases List.mem_append.mp hans with hold | hnew
    · exact (htok ans hold).parser hgot
    · rw [List.mem_singleton.mp hnew]
      exact Confirms.parser hin hgot

theorem Confirming.parser {bfsz : Nat} {s : SendState} (h : SendInv bfsz s)
    (hprompt : NoPromptLeft s .parser) : Confirming (parserStep s) := by
  have hc := h.confirming
  have hflow := h.flow
  have harmed := h.armed
  unfold Confirming at hc ⊢
  unfold Armed at harmed
  rw [(parserStep_frame s).1, parserStep_lineNum]
  cases hpc : s.pc with
  | status st => rw [hpc] at hc; cases st <;> exact hc
  | install st => rw [hpc] at hc; cases st <;> exact hc
  | reset st =>
    rw [hpc] at hc harmed
    cases st
    · trivial
    · exact ⟨hc.1, hc.2.step h.lined harmed hc.1 hprompt⟩
  | take st =>
    rw [hpc] at hc harmed
    rw [Flow, hpc] at hflow
    cases st
    · trivial
    · obtain ⟨hnum, hin, htok⟩ := hc
      exact ⟨hnum, hin.step h.lined harmed hnum hprompt, tokens_confirm hflow.2 hin htok⟩
  | check st ans =>
    rw [hpc] at hc
    cases st
    · trivial
    · have hnone := (hflow.quiet (by rw [hpc]; rfl)).2
      exact Confirms.parser hc (Parser.ne_gotResp hnone)
  | clear st rc ans =>
    rw [hpc] at hc
    cases st
    · trivial
    · exact fun hrc a ha => ⟨(hc hrc a ha).1.parser, (hc hrc a ha).2⟩
  | _ => trivial

theorem Confirming.rx {s : SendState} (h : Confirming s) {p : Parser} (hp : p.answer = none) :
    Confirming { s with parser := p } := by
  have hin : InParser { s with parser := p } := inParser_of_answer_none hp
  unfold Confirming at h ⊢
  cases hpc : s.pc with
  | reset st =>
    rw [hpc] at h
    cases st
    · trivial
    · exact ⟨h.1, hin⟩
  | take st =>
    rw [hpc] at h
    cases st
    · trivial
    · exact ⟨h.1, hin, h.2.2⟩
  | status st => rw [hpc] at h; cases st <;> exact h
  | install st => rw [hpc] at h; cases st <;> exact h
  | check st ans => rw [hpc] at h; cases st <;> exact h
  | clear st rc ans => rw [hpc] at h; cases st <;> exact h
  | _ => trivial

theorem SendInv.step {bfsz bufsz : Nat} {s : SendState} (h : SendInv bfsz s) (a : SendAct)
    (hprompt : NoPromptLeft s a) : SendInv bfsz (sendStep bfsz bufsz s a) := by
  suffices hrest : Armed (sendStep bfsz bufsz s a) ∧ Confirming (sendStep bfsz bufsz s a) ∧
      Acked (sendStep bfsz bufsz s a).acks from
    ⟨h.flow.step a, h.lined.step a, h.counts.step a, hrest.1, hrest.2.1, hrest.2.2⟩
  cases a with
  | sender ok => exact ⟨h.armed.sender ok, .sender h ok, .sender h ok⟩
  | timeout =>
    have harmed := h.armed
    rw [sendStep, timeoutStep]
    split
    · rename_i st hpc _
      rw [Armed, hpc] at harmed
      refine ⟨harmed, ?_, h.acked⟩
      cases st
      · trivial
      · intro hrc
        exact absurd hrc (by simp)
    · exact ⟨h.armed, h.confirming, h.acked⟩
  | parser =>
    obtain ⟨hpc, -, hsign, -, hacks⟩ := parserStep_frame s
    refine ⟨?_, .parser h hprompt, ?_⟩
    · rw [sendStep, Armed, hpc, hsign]; exact h.armed
    · rw [sendStep, hacks]; exact h.acked
  | rx ch =>
    rw [sendStep]
    rcases rxCharStep_cases bufsz ch s with heq | ⟨b, p, -, heq, hnone, -⟩
    · rw [heq]; exact ⟨h.armed, h.confirming, h.acked⟩
    · rw [heq]; exact ⟨h.armed, h.confirming.rx hnone, h.acked⟩

theorem Begins.sendInv {s : SendState} (h : Begins s) (bfsz : Nat) : SendInv bfsz s := by
  refine ⟨h.flow, h.lined, ?_, ?_, ?_, ?_⟩
  · rw [Counts, h.pc]
    exact ⟨by rw [h.sentSize]; exact Nat.zero_le _, by rw [h.chunks, h.sentSize]; rfl,
      by rw [h.chunks, h.acks]; rfl⟩
  · rw [Armed, h.pc]; trivial
  · rw [Confirming, h.pc]; trivial
  · rw [h.acks]; exact nofun

theorem eq_of_toInt_pos {n : Nat} (hn : n < 2 ^ 32) (hpos : 0 < toInt n) : toInt n = n := by
  unfold toInt at *
  rw [Nat.mod_eq_of_lt hn] at *
  split_ifs at * with hlt
  · rfl
  · omega

/-- In a run in which no line that ends in `>` is taken up for a confirmation, a
send that reports success has sent the whole buffer, and the wait for each
chunk was ended by a line that begins with `OK`, is not a URC and was taken up
after the chunk had been sent. -/
theorem send_confirmed (bfsz : UInt32) (bufsz : Nat) (s : SendState) (acts : List SendAct)
    (hbegin : Begins s) (hprompt : Along (sendStep bfsz.toNat bufsz) NoPromptLeft s acts) (n : Int)
    (hdone : (run (sendStep bfsz.toNat bufsz) s acts).pc = .done (.size n)) (hpos : 0 < n) :
    n = bfsz.toNat ∧
      (run (sendStep bfsz.toNat bufsz) s acts).chunks.sum = bfsz.toNat ∧
      (run (sendStep bfsz.toNat bufsz) s acts).acks.length =
        (run (sendStep bfsz.toNat bufsz) s acts).chunks.length ∧
      ∀ k ans, (run (sendStep bfsz.toNat bufsz) s acts).acks[k]? = some ans →
        ans.chunk = k + 1 ∧ getUrcObj ans.line = none ∧ endsIn ans.line 62 = false ∧
          okLine ans.line = true := by
  have hinv := run_invariant (I := SendInv bfsz.toNat) (fun _ a h hP => h.step a hP) acts s
    (hbegin.sendInv bfsz.toNat) hprompt
  have hcounts := hinv.counts
  rw [Counts, hdone] at hcounts
  obtain ⟨hn, hsum, hlen⟩ := hcounts n rfl
  refine ⟨?_, hsum, hlen.symm, hinv.acked⟩
  rw [hn] at hpos ⊢
  exact eq_of_toInt_pos bfsz.toNat_lt hpos

theorem send_confirmed_ok :
    (run (sendStep 5 2048) sendStart (oneChunk ">" "OK\r\n")).pc = .done (.size 5) ∧
      (5 : Int) = (5 : UInt32).toNat ∧
      (run (sendStep 5 2048) sendStart (oneChunk ">" "OK\r\n")).chunks.sum = (5 : UInt32).toNat ∧
      (run (sendStep 5 2048) sendStart (oneChunk ">" "OK\r\n")).acks.length =
        (run (sendStep 5 2048) sendStart (oneChunk ">" "OK\r\n")).chunks.length ∧
      ∀ k ans,
        (run (sendStep 5 2048) sendStart (oneChunk ">" "OK\r\n")).acks[k]? = some ans →
        ans.chunk = k + 1 ∧ getUrcObj ans.line = none ∧ endsIn ans.line 62 = false ∧
          okLine ans.line = true := by
  have hdone : (run (sendStep 5 2048) sendStart (oneChunk ">" "OK\r\n")).pc = .done (.size 5) := by
    decide +kernel
  exact ⟨hdone, send_confirmed 5 2048 sendStart (oneChunk ">" "OK\r\n") begins_sendStart
    (by decide +kernel) 5 hdone (by decide)⟩

/-- A blank line is taken for the prompt, and the prompt for the confirmation:
the send reports success, and the module has confirmed nothing. -/
theorem prompt_taken_for_ok :
    (run (sendStep 5 2048) sendStart (oneChunk "\r\n" ">")).pc = .done (.size 5) ∧
      (run (sendStep 5 2048) sendStart (oneChunk "\r\n" ">")).acks = [⟨ascii ">", 1⟩] ∧
      okLine (ascii ">") = false := by
  decide +kernel

end Hc32Board.AiWb2
