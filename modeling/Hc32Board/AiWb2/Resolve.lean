import Hc32Board.AtClient.Parse
import Hc32Board.CodeLib.Run
import Hc32Board.RtThread.Errno

/-!
# Name resolution

`aiwb2_domain_resolve` of `at_socket_aiwb2.c`.  The function asks the module up
to five times and takes the first `+WDOMAIN` value of at least eight
characters.

An IPv4 address in dotted decimal has seven to fifteen characters.  The seven
characters of `1.2.3.4` are taken for a failure, and any other text of eight to
fifteen characters is taken for an address.

* `domain_resolve_iff` says which addresses are accepted, and when a sequence
  of replies without an address ends in an error.

The scan has no limit and its destination has sixteen bytes.  A value that does
not fit makes the result `none`.
-/

namespace Hc32Board.AiWb2

open Hc32Board.CodeLib
open Hc32Board.AtClient
open Hc32Board.RtThread

/-- The size of `recv_ip`. -/
def recvIpSize : Nat := 16

/-- `RESOLVE_RETRY`. -/
def resolveRetry : Nat := 5

/-- How the loop of `aiwb2_domain_resolve` is left. -/
inductive TryEnd where
  /-- `at_obj_exec_cmd` failed. -/
  | cmdError
  /-- The text in `recv_ip` was copied to `ip`. -/
  | found (recvIp : Bytes)
  /-- No try was left. -/
  | exhausted (recvIp : Bytes)
deriving DecidableEq, Repr

/-- The loop of `aiwb2_domain_resolve`: `n` tries are left, and `i` were made.
`recvIp` is the text in `recv_ip`. -/
def resolveTries (reply : Nat → Reply) : Nat → Nat → Bytes → Option TryEnd
  | 0, _, recvIp => some (.exhausted recvIp)
  | n + 1, i, recvIp =>
    match reply i with
    | none => some .cmdError
    | some lines =>
      match kwValue lines "+WDOMAIN:" with
      | none => resolveTries reply n (i + 1) recvIp
      | some text =>
        if text.length < recvIpSize then
          if text.length < 8 then resolveTries reply n (i + 1) text else some (.found text)
        else none

/-- The result of `aiwb2_domain_resolve`.  `ip` is `none` if the argument was
not written. -/
structure Resolved where
  ret : Int
  ip : Option Bytes
deriving DecidableEq, Repr

/-- `aiwb2_domain_resolve` behind its loop. -/
def TryEnd.resolved : TryEnd → Resolved
  | .cmdError => ⟨-rtError, none⟩
  | .found recvIp => ⟨if recvIp.length < 8 then -rtError else 0, some (recvIp.take 15)⟩
  | .exhausted recvIp => ⟨if recvIp.length < 8 then -rtError else 0, none⟩

/-- `aiwb2_domain_resolve`.  `device` tells whether a device is initialised and
`respOk` whether there is memory for the response. -/
def aiwb2DomainResolve (device respOk : Bool) (reply : Nat → Reply) : Option Resolved :=
  if !device then some ⟨-rtError, none⟩
  else if !respOk then some ⟨-rtENoMem, none⟩
  else (resolveTries reply resolveRetry 0 []).map TryEnd.resolved

/-! ## Addresses -/

/-- `a.b.c.d` in plain decimal. -/
def dottedQuad (a b c d : Fin 256) : Bytes :=
  decimal a ++ [46] ++ decimal b ++ [46] ++ decimal c ++ [46] ++ decimal d

def IsDottedQuad (text : Bytes) : Prop := ∃ a b c d, text = dottedQuad a b c d

theorem length_decimal_fin (a : Fin 256) :
    1 ≤ (decimal a).length ∧ (decimal a).length ≤ 3 ∧
      (2 ≤ (decimal a).length ↔ 10 ≤ a.val) := by
  revert a
  decide +kernel

theorem length_dottedQuad (a b c d : Fin 256) :
    7 ≤ (dottedQuad a b c d).length ∧ (dottedQuad a b c d).length ≤ 15 ∧
      (8 ≤ (dottedQuad a b c d).length ↔
        10 ≤ a.val ∨ 10 ≤ b.val ∨ 10 ≤ c.val ∨ 10 ≤ d.val) := by
  have ha := length_decimal_fin a
  have hb := length_decimal_fin b
  have hc := length_decimal_fin c
  have hd := length_decimal_fin d
  simp only [dottedQuad, List.length_append, List.length_singleton]
  omega

theorem isValue_dottedQuad (a b c d : Fin 256) : IsValue (dottedQuad a b c d) := by
  have hdec : ∀ (n : Fin 256) (x : UInt8), x ∈ decimal n → x ≠ 0 ∧ x ≠ 13 ∧ x ≠ 10 := by
    intro n x hx
    have hdigit := isDigit_of_mem_decimal n x hx
    refine ⟨?_, ?_, ?_⟩ <;>
      · rintro rfl
        exact absurd hdigit (by decide)
  intro x hx
  simp only [dottedQuad, List.mem_append, List.mem_singleton] at hx
  rcases hx with (((((h | rfl) | h) | rfl) | h) | rfl) | h
  · exact hdec a x h
  · decide
  · exact hdec b x h
  · decide
  · exact hdec c x h
  · decide
  · exact hdec d x h

/-! ## The tries -/

/-- The reply was received, and it has no value or a short one. -/
def Short (n : Nat) (r : Reply) : Prop :=
  ∃ lines, r = some lines ∧ ∀ text, kwValue lines "+WDOMAIN:" = some text → text.length < n

/-- A short value is followed by another try. -/
theorem resolveTries_short {reply : Nat → Reply} {i : Nat} (h : Short 8 (reply i)) (n : Nat)
    {recvIp : Bytes} (hold : recvIp.length < 8) :
    ∃ recvIp' : Bytes, recvIp'.length < 8 ∧
      resolveTries reply (n + 1) i recvIp = resolveTries reply n (i + 1) recvIp' := by
  obtain ⟨lines, hreply, hshort⟩ := h
  rw [resolveTries, hreply]
  dsimp only
  cases hval : kwValue lines "+WDOMAIN:" with
  | none => exact ⟨recvIp, hold, rfl⟩
  | some text =>
    have hlen := hshort text hval
    refine ⟨text, hlen, ?_⟩
    dsimp only
    rw [if_pos (by unfold recvIpSize; omega), if_pos hlen]

theorem resolveTries_skip {reply : Nat → Reply} {m : Nat} :
    ∀ {i : Nat}, (∀ j < m, Short 8 (reply (i + j))) → ∀ (n : Nat) {recvIp : Bytes},
      recvIp.length < 8 → ∃ recvIp' : Bytes, recvIp'.length < 8 ∧
        resolveTries reply (n + m) i recvIp = resolveTries reply n (i + m) recvIp' := by
  induction m with
  | zero => exact fun _ n recvIp hold => ⟨recvIp, hold, rfl⟩
  | succ m ih =>
    intro i h n recvIp hold
    have hrest : ∀ j < m, Short 8 (reply (i + 1 + j)) := by
      intro j hj
      rw [show i + 1 + j = i + (j + 1) by omega]
      exact h (j + 1) (by omega)
    obtain ⟨ip₁, h₁, heq₁⟩ := resolveTries_short (i := i) (h 0 (by omega)) (n + m) hold
    obtain ⟨ip₂, h₂, heq₂⟩ := ih hrest n h₁
    refine ⟨ip₂, h₂, ?_⟩
    rw [← Nat.add_assoc, heq₁, heq₂, show i + 1 + m = i + (m + 1) by omega]

/-- What is found has at least eight characters, and fits. -/
theorem length_of_found {reply : Nat → Reply} {text : Bytes} :
    ∀ {n i : Nat} {recvIp : Bytes}, resolveTries reply n i recvIp = some (.found text) →
      8 ≤ text.length ∧ text.length ≤ 15 := by
  intro n
  induction n with
  | zero => exact fun h => absurd h (by simp [resolveTries])
  | succ n ih =>
    intro i recvIp h
    rw [resolveTries] at h
    split at h
    · exact absurd h (by simp)
    · split at h
      · exact ih h
      · split_ifs at h with hsize hlen
        · exact ih h
        · obtain rfl := TryEnd.found.inj (Option.some.inj h)
          unfold recvIpSize at hsize
          omega

/-- The function fails without a write to `ip` exactly if every reply up to
the first failed command is short. -/
theorem resolveTries_fails_iff {reply : Nat → Reply} :
    ∀ (n i : Nat) {recvIp : Bytes}, recvIp.length < 8 →
      ((∃ e, resolveTries reply n i recvIp = some e ∧
        (e = .cmdError ∨ ∃ text : Bytes, e = .exhausted text ∧ text.length < 8)) ↔
        ∀ k < n, (∀ j < k, reply (i + j) ≠ none) →
          reply (i + k) ≠ none → Short 8 (reply (i + k))) := by
  intro n
  induction n with
  | zero =>
    intro i recvIp hold
    exact ⟨fun _ _ h => absurd h (Nat.not_lt_zero _),
      fun _ => ⟨_, rfl, .inr ⟨recvIp, rfl, hold⟩⟩⟩
  | succ n ih =>
    intro i recvIp hold
    rw [forall_reached_succ (P := (· ≠ none)) (Q := fun r => r ≠ none → Short 8 r)]
    cases hreply : reply i with
    | none =>
      refine iff_of_true ⟨.cmdError, by rw [resolveTries, hreply], .inl rfl⟩ ?_
      exact ⟨fun h => absurd rfl h, fun h => absurd rfl h⟩
    | some lines =>
      have hsome : some lines ≠ none := Option.some_ne_none lines
      rw [forall_prop_of_true hsome, forall_prop_of_true hsome, ← hreply]
      by_cases hshort : Short 8 (reply i)
      · -- this try is over, and the condition is the one of the tries that are left
        obtain ⟨recvIp', hold', heq⟩ := resolveTries_short hshort n hold
        rw [heq, ih (i + 1) hold']
        exact (and_iff_right hshort).symm
      · refine iff_of_false ?_ fun h => hshort h.1
        rintro ⟨e, he, hend⟩
        refine hshort ⟨lines, hreply, fun text hval => ?_⟩
        rw [resolveTries, hreply] at he
        dsimp only at he
        rw [hval] at he
        dsimp only at he
        split_ifs at he with hsize hlen
        · exact hlen
        · obtain rfl := Option.some.inj he
          rcases hend with h | ⟨t, h, -⟩ <;> exact absurd h (by simp)

/-! ## Which replies are accepted -/

theorem resolve_eq_ok_iff {reply : Nat → Reply} {text : Bytes} :
    aiwb2DomainResolve true true reply = some ⟨0, some text⟩ ↔
      resolveTries reply resolveRetry 0 [] = some (.found text) := by
  show (resolveTries reply resolveRetry 0 []).map TryEnd.resolved = _ ↔ _
  constructor
  · intro h
    obtain ⟨e, he, hres⟩ := Option.map_eq_some_iff.mp h
    cases e with
    | cmdError => exact absurd hres (by simp [TryEnd.resolved])
    | exhausted recvIp => exact absurd hres (by simp [TryEnd.resolved])
    | found recvIp =>
      have hlen := length_of_found he
      have hip : recvIp.take 15 = text := by simpa using (Resolved.mk.inj hres).2
      rw [he, ← hip, List.take_of_length_le hlen.2]
  · intro h
    have hlen := length_of_found h
    rw [h, Option.map_some, TryEnd.resolved, if_neg (by omega), List.take_of_length_le hlen.2]

theorem resolve_fails_iff {reply : Nat → Reply} :
    (∃ r, aiwb2DomainResolve true true reply = some r ∧ r.ret < 0 ∧ r.ip = none) ↔
      ∃ e, resolveTries reply resolveRetry 0 [] = some e ∧
        (e = .cmdError ∨ ∃ text : Bytes, e = .exhausted text ∧ text.length < 8) := by
  show (∃ r, (resolveTries reply resolveRetry 0 []).map TryEnd.resolved = some r ∧ _) ↔ _
  constructor
  · rintro ⟨r, hr, hneg, hip⟩
    obtain ⟨e, he, rfl⟩ := Option.map_eq_some_iff.mp hr
    refine ⟨e, he, ?_⟩
    cases e with
    | cmdError => exact .inl rfl
    | found recvIp => exact absurd hip (by simp [TryEnd.resolved])
    | exhausted recvIp =>
      refine .inr ⟨recvIp, rfl, ?_⟩
      by_contra hlen
      rw [TryEnd.resolved, if_neg hlen] at hneg
      exact absurd hneg (by decide)
  · rintro ⟨e, he, rfl | ⟨text, rfl, hlen⟩⟩
    · exact ⟨_, by rw [he]; rfl, by decide, rfl⟩
    · refine ⟨_, by rw [he]; rfl, ?_, rfl⟩
      rw [TryEnd.resolved, if_pos hlen]
      decide

/-- An address that follows short replies is accepted exactly if it has more
than seven characters.  Replies without an address end in an error, with `ip`
not written, exactly if none of them up to the first failed command has a value
of eight or more characters. -/
theorem domain_resolve_iff (reply : Nat → Reply) :
    (∀ (i : Nat) (lines : List Bytes) (a b c d : Fin 256), i < 5 →
      (∀ j < i, Short 7 (reply j)) → reply i = some lines →
      atRespGetLineByKw lines "+WDOMAIN:" =
        some (ascii "+WDOMAIN:" ++ dottedQuad a b c d ++ [13]) →
      (aiwb2DomainResolve true true reply = some ⟨0, some (dottedQuad a b c d)⟩ ↔
        10 ≤ a.val ∨ 10 ≤ b.val ∨ 10 ≤ c.val ∨ 10 ≤ d.val)) ∧
    ((∀ i < 5, ∀ lines text, reply i = some lines → kwValue lines "+WDOMAIN:" = some text →
        ¬ IsDottedQuad text) →
      ((∃ r, aiwb2DomainResolve true true reply = some r ∧ r.ret < 0 ∧ r.ip = none) ↔
        ∀ i < 5, (∀ j ≤ i, reply j ≠ none) → Short 8 (reply i))) := by
  constructor
  · intro i lines a b c d hi hearly hreply hline
    obtain ⟨hlo, hhi, hten⟩ := length_dottedQuad a b c d
    have hne : dottedQuad a b c d ≠ [] := by
      intro h
      rw [h] at hlo
      exact absurd hlo (by decide)
    have hval := kwValue_of_line (by decide) (isValue_dottedQuad a b c d) hne hline
    have hskip : ∀ j < i, Short 8 (reply (0 + j)) := by
      intro j hj
      obtain ⟨ls, hls, hshort⟩ := hearly j hj
      rw [Nat.zero_add]
      exact ⟨ls, hls, fun text h => Nat.lt_succ_of_lt (hshort text h)⟩
    obtain ⟨n, hn⟩ : ∃ n, resolveRetry = n + 1 + i := ⟨4 - i, by unfold resolveRetry; omega⟩
    obtain ⟨recvIp, hold, heq⟩ := resolveTries_skip hskip (n + 1) (show [].length < 8 by decide)
    rw [resolve_eq_ok_iff, ← hten, hn, heq, Nat.zero_add, resolveTries, hreply]
    dsimp only
    rw [hval]
    dsimp only
    rw [if_pos (by unfold recvIpSize; omega)]
    split_ifs with hlen
    · exact ⟨fun h => (length_of_found h).1, fun h => absurd hlen (Nat.not_lt.mpr h)⟩
    · exact ⟨fun _ => Nat.not_lt.mp hlen, fun _ => rfl⟩
  · intro _
    rw [resolve_fails_iff, resolveTries_fails_iff resolveRetry 0 (by decide)]
    simp only [Nat.zero_add]
    refine forall₂_congr fun i _ => ?_
    rw [← and_imp]
    refine imp_congr_left ⟨fun h j hj => ?_, fun h => ⟨fun j hj => h j hj.le, h i (Nat.le_refl i)⟩⟩
    rcases hj.lt_or_eq with hlt | rfl
    · exact h.1 j hlt
    · exact h.2

/-- `10.0.0.1` after a reply without a value, and five replies without a
value. -/
theorem domain_resolve_second_try :
    aiwb2DomainResolve true true
        (fun i => if i = 0 then some [ascii "OK\r"]
          else some [ascii "+WDOMAIN:10.0.0.1\r", ascii "OK\r"]) =
      some ⟨0, some (dottedQuad 10 0 0 1)⟩ ∧
    ∃ r, aiwb2DomainResolve true true (fun _ => some [ascii "OK\r"]) = some r ∧ r.ret < 0 ∧
      r.ip = none := by
  have hnone : kwValue [ascii "OK\r"] "+WDOMAIN:" = none := by decide
  have hshort : ∀ n, Short n (some [ascii "OK\r"]) := fun n =>
    ⟨_, rfl, fun text h => absurd (hnone.symm.trans h) (by simp)⟩
  constructor
  · refine ((domain_resolve_iff _).1 1 [ascii "+WDOMAIN:10.0.0.1\r", ascii "OK\r"] 10 0 0 1
      (by decide) ?_ rfl (by decide)).mpr (by decide)
    intro j hj
    obtain rfl : j = 0 := by omega
    exact hshort 7
  · refine ((domain_resolve_iff _).2 ?_).mpr fun _ _ _ => hshort 8
    intro i _ lines text hreply hval
    obtain rfl := Option.some.inj hreply
    exact absurd (hnone.symm.trans hval) (by simp)

/-- `1.1.1.1` is rejected five times, and a text that is no address is
accepted. -/
theorem short_address_rejected :
    aiwb2DomainResolve true true
        (fun _ => some [ascii "+WDOMAIN:1.1.1.1\r", ascii "OK\r"]) = some ⟨-rtError, none⟩ ∧
      aiwb2DomainResolve true true
        (fun _ => some [ascii "+WDOMAIN:not found\r", ascii "OK\r"]) =
        some ⟨0, some (ascii "not found")⟩ := by
  decide

end Hc32Board.AiWb2
