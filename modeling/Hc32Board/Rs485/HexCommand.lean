import Hc32Board.CodeLib.Bytes

/-!
# The hex command of the RS485 driver

`rs485_send_cmd` joins its arguments in a buffer of 256 bytes and reads the
frame from the text with `hex_str_to_bytes`.

A pointer into a text is the rest of its memory.  A read behind the end of the
memory and a write behind the end of the output are faults, and the result is
then `none`.

The language that the reader accepts is given apart from the reader.
`HexPairs text bytes` says that `text` is a sequence of hex pairs with
separators before each of them.  `Rendering` allows separators at the end as
well.

`hex_command` says that the command sends the bytes that its arguments render,
and that on any text the reader takes the longest prefix in the language.
-/

namespace Hc32Board.Rs485.HexCommand

open Hc32Board.CodeLib

/-! ## The reader -/

/-- `hex_char_to_nibble`, with `none` for `-1`. -/
def hexCharToNibble (c : UInt8) : Option Nat :=
  if 48 ≤ c ∧ c ≤ 57 then some (c.toNat - 48)
  else if 97 ≤ c ∧ c ≤ 102 then some (c.toNat - 97 + 10)
  else if 65 ≤ c ∧ c ≤ 70 then some (c.toNat - 65 + 10)
  else none

/-- Space, tab, comma and dash. -/
def isSeparator (c : UInt8) : Bool := c == 32 || c == 9 || c == 44 || c == 45

/-- The inner loop of `hex_str_to_bytes`. -/
def skipSeparators : Bytes → Option Bytes
  | [] => none
  | c :: hex => if isSeparator c then skipSeparators hex else some (c :: hex)

/-- How a turn of the loop goes on behind the separators. -/
inductive Turn where
  /-- The loop is left. -/
  | stop
  | byte (b : UInt8) (hex : Bytes)
deriving DecidableEq, Repr

/-- The byte of two nibbles. -/
def pairByte (h l : Nat) : UInt8 := UInt8.ofNat ((h <<< 4) ||| l)

/-- A turn of the loop, from the test for the end of the text on. -/
def readPair : Bytes → Option Turn
  | [] => none
  | c :: hex =>
    if c = 0 then some .stop
    else
      match hexCharToNibble c with
      | none => some .stop
      | some h =>
        match hex with
        | [] => none
        | d :: hex =>
          match hexCharToNibble d with
          | none => some .stop
          | some l => some (.byte (pairByte h l) hex)

/-- The loop of `hex_str_to_bytes`.  `room` is `max_len - len`. -/
def hexLoop : Nat → Bytes → Bytes → Nat → Option (Nat × Bytes)
  | _, [], _, _ => none
  | 0, _ :: _, out, len => some (len, out)
  | room + 1, c :: hex, out, len =>
    if c = 0 then some (len, out)
    else
      match (skipSeparators (c :: hex)).bind readPair with
      | none => none
      | some .stop => some (len, out)
      | some (.byte b rest) =>
        if len < out.length then hexLoop room rest (out.set len b) (len + 1) else none

/-- `hex_str_to_bytes`: the value it returns, and the output. -/
def hexStrToBytes (hex out : Option Bytes) (maxLen : Nat) : Option (Nat × Bytes) :=
  match hex, out with
  | some hex, some out => if maxLen = 0 then some (0, out) else hexLoop maxLen hex out 0
  | _, out => some (0, out.getD [])

/-! ## The command -/

/-- The size of `hex_str`. -/
def hexStrSize : Nat := 256

/-- `RS485_FRAME_SIZE`. -/
def frameSize : Nat := 256

/-- `rt_strncpy(buf + used, text, n)`. -/
def strncpyAt (buf : Bytes) (used n : Nat) (text : Bytes) : Bytes :=
  buf.take used ++ fit n (cstr text) ++ buf.drop (used + n)

/-- One bounded append to `hex_str`. -/
def appendText (hexStr text : Bytes) : Bytes :=
  let used := (cstr hexStr).length
  let remain := hexStrSize - used - 1
  if 0 < remain then (strncpyAt hexStr used remain text).set (hexStrSize - 1) 0 else hexStr

/-- The loop over the arguments behind the name of the command. -/
def joinArgs (hexStr : Bytes) : List Bytes → Bytes
  | [] => hexStr
  | [arg] => appendText hexStr arg
  | arg :: next :: args => joinArgs (appendText (appendText hexStr arg) (ascii " ")) (next :: args)

/-- What `rs485_send_cmd` does. -/
inductive CmdResult where
  | usage
  | invalid
  /-- The frame is passed to `rs485_send_then_recv`. -/
  | send (frame : Bytes)
deriving DecidableEq, Repr

/-- The frame in `tx_buf`: its first `tx_len` bytes.  `txBuf` is the memory of
`tx_buf` before the call. -/
def cmdFrame (args : List Bytes) (txBuf : Bytes) : Option Bytes :=
  (hexStrToBytes (some (joinArgs (zeros hexStrSize) args)) (some txBuf) frameSize).map
    fun r => r.2.take r.1

/-- `rs485_send_cmd`. -/
def rs485SendCmd (args : List Bytes) (txBuf : Bytes) : Option CmdResult :=
  if args = [] then some .usage
  else (cmdFrame args txBuf).map fun frame => if frame = [] then .invalid else .send frame

/-! ## The language of the reader -/

/-- `text` is a sequence of separators and hex pairs, and ends with a pair. -/
inductive HexPairs : Bytes → Bytes → Prop where
  | nil : HexPairs [] []
  | cons {seps text bytes : Bytes} {c d : UInt8} {h l : Nat}
      (hseps : ∀ s ∈ seps, isSeparator s = true) (hc : hexCharToNibble c = some h)
      (hd : hexCharToNibble d = some l) (htail : HexPairs text bytes) :
      HexPairs (seps ++ c :: d :: text) (UInt8.ofNat (16 * h + l) :: bytes)

/-- `text` renders `bytes`: hex pairs with separators before, between and
after them. -/
def Rendering (text bytes : Bytes) : Prop :=
  ∃ body tail, text = body ++ tail ∧ HexPairs body bytes ∧ ∀ s ∈ tail, isSeparator s = true

/-- The prefix of `text` that the reader takes, and its bytes: no other prefix
of the text in the language is longer. -/
def LongestPairs (text pre bytes : Bytes) : Prop :=
  pre <+: text ∧ HexPairs pre bytes ∧
    ∀ pre' bytes', pre' <+: text → HexPairs pre' bytes' → pre'.length ≤ pre.length

/-! ## One pair -/

theorem hexCharToNibble_lt {c : UInt8} {h : Nat} (hc : hexCharToNibble c = some h) : h < 16 := by
  unfold hexCharToNibble at hc
  split_ifs at hc with h1 h2 h3
  all_goals
    simp only [UInt8.le_iff_toNat_le, UInt8.reduceToNat] at *
    obtain rfl := Option.some.inj hc
    omega

@[simp] theorem hexCharToNibble_zero : hexCharToNibble 0 = none := by decide

theorem isSeparator_of_nibble {c : UInt8} {h : Nat} (hc : hexCharToNibble c = some h) :
    isSeparator c = false := by
  rw [Bool.eq_false_iff]
  intro hsep
  simp only [isSeparator, Bool.or_eq_true, beq_iff_eq] at hsep
  rcases hsep with ((rfl | rfl) | rfl) | rfl
  all_goals exact absurd hc (by decide +revert)

theorem pairByte_eq {h l : Nat} (hl : l < 16) : pairByte h l = UInt8.ofNat (16 * h + l) := by
  have hor := Nat.shiftLeft_add_eq_or_of_lt (show l < 2 ^ 4 from hl) h
  rw [pairByte, ← hor, Nat.shiftLeft_eq, Nat.mul_comm h]

/-- The first pair of a text, and what is behind it. -/
def firstPair (text : Bytes) : Option (UInt8 × Bytes) :=
  match text.dropWhile isSeparator with
  | c :: d :: rest =>
    match hexCharToNibble c, hexCharToNibble d with
    | some h, some l => some (pairByte h l, rest)
    | _, _ => none
  | _ => none

theorem firstPair_eq {seps text : Bytes} {c d : UInt8} {h l : Nat}
    (hseps : ∀ s ∈ seps, isSeparator s = true) (hc : hexCharToNibble c = some h)
    (hd : hexCharToNibble d = some l) :
    firstPair (seps ++ c :: d :: text) = some (UInt8.ofNat (16 * h + l), text) := by
  have hstop : ¬ isSeparator c = true := by rw [isSeparator_of_nibble hc]; decide
  rw [firstPair, List.dropWhile_append_of_pos hseps, List.dropWhile_cons_of_neg hstop]
  simp only [hc, hd, pairByte_eq (hexCharToNibble_lt hd)]

theorem firstPair_separators {seps : Bytes} (hseps : ∀ s ∈ seps, isSeparator s = true) :
    firstPair seps = none := by
  rw [firstPair, List.dropWhile_eq_nil_iff.mpr hseps]

/-- What a pair was read from. -/
theorem of_firstPair {text rest : Bytes} {b : UInt8} (hpair : firstPair text = some (b, rest)) :
    ∃ seps c d h l, text = seps ++ c :: d :: rest ∧ (∀ s ∈ seps, isSeparator s = true) ∧
      hexCharToNibble c = some h ∧ hexCharToNibble d = some l ∧ b = UInt8.ofNat (16 * h + l) := by
  have hsplit := List.takeWhile_append_dropWhile (p := isSeparator) (l := text)
  unfold firstPair at hpair
  split at hpair
  next c d rest' hdrop =>
    split at hpair
    next h l hc hd =>
      obtain ⟨rfl, rfl⟩ := Prod.mk.inj (Option.some.inj hpair)
      refine ⟨text.takeWhile isSeparator, c, d, h, l, ?_, ?_, hc, hd,
        pairByte_eq (hexCharToNibble_lt hd)⟩
      · rw [← hdrop, hsplit]
      · exact fun s hs => List.mem_takeWhile_imp hs
    next => exact absurd hpair (by simp)
  next => exact absurd hpair (by simp)

/-! ## The loop on a text with its terminator -/

theorem skipSeparators_append (s t : Bytes) :
    skipSeparators (s ++ 0 :: t) = some (s.dropWhile isSeparator ++ 0 :: t) := by
  induction s with
  | nil => rfl
  | cons c s ih =>
    rw [List.cons_append, skipSeparators]
    cases hsep : isSeparator c with
    | true => rw [if_pos rfl, ih, List.dropWhile_cons_of_pos hsep]
    | false =>
      rw [if_neg (by decide), List.dropWhile_cons_of_neg (by rw [hsep]; decide), List.cons_append]

/-- What a turn of the loop makes of a text. -/
def turnOf (t : Bytes) : Option (UInt8 × Bytes) → Turn
  | none => .stop
  | some (b, rest) => .byte b (rest ++ 0 :: t)

/-- A turn stops at the NUL, also between the two digits of a pair. -/
theorem turn_eq {s : Bytes} (h0 : (0 : UInt8) ∉ s) (t : Bytes) :
    (skipSeparators (s ++ 0 :: t)).bind readPair = some (turnOf t (firstPair s)) := by
  have h0' : (0 : UInt8) ∉ s.dropWhile isSeparator :=
    fun h => h0 ((List.dropWhile_suffix _).subset h)
  rw [skipSeparators_append, Option.bind_some, firstPair]
  generalize s.dropWhile isSeparator = u at h0'
  match u, h0' with
  | [], _ => rfl
  | [c], h0' =>
    have hc : c ≠ 0 := fun h => h0' (by simp [h])
    cases hn : hexCharToNibble c <;> simp [readPair, hc, hn, turnOf]
  | c :: d :: rest, h0' =>
    have hc : c ≠ 0 := fun h => h0' (by simp [h])
    cases hn : hexCharToNibble c <;> cases hm : hexCharToNibble d <;>
      simp [readPair, hc, hn, hm, turnOf]

/-- One turn of the loop takes the first pair of the text. -/
theorem hexLoop_succ {s : Bytes} (h0 : (0 : UInt8) ∉ s) (t out : Bytes) (room len : Nat) :
    hexLoop (room + 1) (s ++ 0 :: t) out len =
      match firstPair s with
      | none => some (len, out)
      | some (b, rest) =>
        if len < out.length then hexLoop room (rest ++ 0 :: t) (out.set len b) (len + 1)
        else none := by
  cases s with
  | nil => rfl
  | cons c s =>
    have hc : c ≠ 0 := fun h => h0 (by simp [h])
    have hturn := turn_eq h0 t
    rw [List.cons_append] at hturn
    rw [List.cons_append, hexLoop, if_neg hc, hturn]
    cases firstPair (c :: s) with
    | none => rfl
    | some r => rfl

theorem hexLoop_zero (s t out : Bytes) (len : Nat) :
    hexLoop 0 (s ++ 0 :: t) out len = some (len, out) := by
  cases s <;> rfl

/-! ## The bytes that are read -/

/-- The turns of the loop on a text, without a limit: the prefix that is read,
and its bytes. -/
inductive Reads : Bytes → Bytes → Bytes → Prop where
  | stop {text : Bytes} (hstop : firstPair text = none) : Reads text [] []
  | next {used rest pre bytes : Bytes} {b : UInt8}
      (hpair : firstPair (used ++ rest) = some (b, rest)) (htail : Reads rest pre bytes) :
      Reads (used ++ rest) (used ++ pre) (b :: bytes)

theorem exists_reads (text : Bytes) : ∃ pre bytes, Reads text pre bytes := by
  generalize hn : text.length = n
  induction n using Nat.strongRecOn generalizing text with
  | _ n ih =>
    cases hpair : firstPair text with
    | none => exact ⟨[], [], .stop hpair⟩
    | some r =>
      obtain ⟨b, rest⟩ := r
      obtain ⟨seps, c, d, h, l, htext, -⟩ := of_firstPair hpair
      have hused : text = (seps ++ [c, d]) ++ rest := by rw [htext]; simp
      have hlen : rest.length < n := by
        rw [← hn, hused]
        simp
        omega
      obtain ⟨pre, bytes, htail⟩ := ih rest.length hlen rest rfl
      rw [hused] at hpair ⊢
      exact ⟨_, _, .next hpair htail⟩

/-- The reader is deterministic. -/
theorem Reads.bytes_eq {text pre₁ bytes₁ pre₂ bytes₂ : Bytes} (h₁ : Reads text pre₁ bytes₁)
    (h₂ : Reads text pre₂ bytes₂) : bytes₁ = bytes₂ := by
  induction h₁ generalizing pre₂ bytes₂ with
  | stop hstop =>
    cases h₂ with
    | stop => rfl
    | next hpair => exact absurd (hstop.symm.trans hpair) (by simp)
  | @next used rest pre bytes b hpair _ ih =>
    generalize htext : used ++ rest = text at h₂ hpair
    cases h₂ with
    | stop hstop => exact absurd (hstop.symm.trans hpair) (by simp)
    | next hpair' htail' =>
      obtain ⟨rfl, rfl⟩ := Prod.mk.inj (Option.some.inj (hpair.symm.trans hpair'))
      rw [ih htail']

theorem Reads.hexPairs {text pre bytes : Bytes} (h : Reads text pre bytes) :
    pre <+: text ∧ HexPairs pre bytes := by
  induction h with
  | stop => exact ⟨List.nil_prefix, .nil⟩
  | @next used rest pre bytes b hpair _ ih =>
    obtain ⟨seps, c, d, h, l, htext, hseps, hc, hd, rfl⟩ := of_firstPair hpair
    have hused : used = seps ++ [c, d] :=
      List.append_cancel_right (htext.trans (by simp : _ = (seps ++ [c, d]) ++ rest))
    refine ⟨(List.prefix_append_right_inj used).mpr ih.1, ?_⟩
    rw [hused, List.append_assoc]
    exact .cons hseps hc hd ih.2

/-- A text that begins with a pair in the language has it as its first
pair. -/
theorem HexPairs.prefix_cases {text pre bytes : Bytes} (hpre : pre <+: text)
    (h : HexPairs pre bytes) :
    pre = [] ∨ ∃ used b rest pre', pre = used ++ pre' ∧ text = used ++ rest ∧
      firstPair text = some (b, rest) ∧ pre' <+: rest ∧ ∃ bytes', HexPairs pre' bytes' := by
  cases h with
  | nil => exact .inl rfl
  | @cons seps pre' bytes' c d h l hseps hc hd htail =>
    obtain ⟨more, rfl⟩ := hpre
    refine .inr ⟨seps ++ [c, d], UInt8.ofNat (16 * h + l), pre' ++ more, pre', by simp, by simp,
      ?_, List.prefix_append _ _, bytes', htail⟩
    rw [List.append_assoc]
    exact firstPair_eq hseps hc hd

theorem Reads.longest {text pre bytes : Bytes} (h : Reads text pre bytes) :
    LongestPairs text pre bytes := by
  refine ⟨h.hexPairs.1, h.hexPairs.2, ?_⟩
  induction h with
  | stop hstop =>
    intro pre' bytes' hpre hpairs
    rcases hpairs.prefix_cases hpre with rfl | ⟨used, b, rest, pre'', -, -, hpair, -⟩
    · exact Nat.le_refl _
    · exact absurd (hstop.symm.trans hpair) (by simp)
  | @next used rest pre bytes b hpair _ ih =>
    intro pre' bytes' hpre hpairs
    rcases hpairs.prefix_cases hpre with
      rfl | ⟨used', b', rest', pre'', rfl, htext, hpair', hpre'', bytes'', hpairs''⟩
    · exact Nat.zero_le _
    · -- both readings took the same first pair, so they are left with the same text
      obtain ⟨-, rfl⟩ := Prod.mk.inj (Option.some.inj (hpair.symm.trans hpair'))
      obtain rfl := List.append_cancel_right htext
      rw [List.length_append, List.length_append]
      exact Nat.add_le_add_left (ih pre'' bytes'' hpre'' hpairs'') _

/-- The loop stores what is read, up to the room it has. -/
theorem hexLoop_of_reads {text pre bytes : Bytes} (h : Reads text pre bytes)
    (h0 : (0 : UInt8) ∉ text) (t : Bytes) :
    ∀ (room len : Nat) (out : Bytes), len + room ≤ out.length →
      hexLoop room (text ++ 0 :: t) out len =
        some (len + (bytes.take room).length, storeAt out len (bytes.take room)) := by
  induction h with
  | stop hstop =>
    intro room len out _
    rw [List.take_nil, storeAt_nil]
    cases room with
    | zero => exact hexLoop_zero _ _ _ _
    | succ room => rw [hexLoop_succ h0, hstop]; rfl
  | @next used rest pre bytes b hpair _ ih =>
    intro room len out hroom
    cases room with
    | zero => rw [List.take_zero, storeAt_nil]; exact hexLoop_zero _ _ _ _
    | succ room =>
      have hlen : len < out.length := by omega
      have h0' : (0 : UInt8) ∉ rest := fun h => h0 (List.mem_append_right _ h)
      rw [hexLoop_succ h0, hpair]
      dsimp only
      rw [if_pos hlen, ih h0' room (len + 1) (out.set len b) (by rw [List.length_set]; omega),
        storeAt_cons hlen, List.take_succ_cons, List.length_cons]
      congr 2
      omega

theorem hexStrToBytes_of_reads {text pre bytes : Bytes} (h : Reads text pre bytes)
    (h0 : (0 : UInt8) ∉ text) (t : Bytes) {out : Bytes} {maxLen : Nat}
    (hout : maxLen ≤ out.length) :
    hexStrToBytes (some (text ++ 0 :: t)) (some out) maxLen =
      some ((bytes.take maxLen).length,
        bytes.take maxLen ++ out.drop (bytes.take maxLen).length) := by
  rw [hexStrToBytes]
  split_ifs with hzero
  · rw [hzero, List.take_zero]
    rfl
  · rw [hexLoop_of_reads h h0 t maxLen 0 out (by omega)]
    simp [storeAt]

/-! ## Renderings -/

theorem rendering_separators {seps : Bytes} (hseps : ∀ s ∈ seps, isSeparator s = true) :
    Rendering seps [] :=
  ⟨[], seps, rfl, .nil, hseps⟩

/-- Separators may be put before a rendering. -/
theorem Rendering.separators_append {seps text bytes : Bytes}
    (hseps : ∀ s ∈ seps, isSeparator s = true) (h : Rendering text bytes) :
    Rendering (seps ++ text) bytes := by
  obtain ⟨body, tail, rfl, hbody, htail⟩ := h
  cases hbody with
  | nil =>
    refine rendering_separators ?_
    intro s hs
    rcases List.mem_append.mp hs with hs | hs
    · exact hseps s hs
    · exact htail s hs
  | @cons seps' text bytes c d h l hseps' hc hd htext =>
    refine ⟨(seps ++ seps') ++ c :: d :: text, tail, by simp, .cons ?_ hc hd htext, htail⟩
    intro s hs
    rcases List.mem_append.mp hs with hs | hs
    · exact hseps s hs
    · exact hseps' s hs

theorem Rendering.append {text₁ bytes₁ text₂ bytes₂ : Bytes} (h₁ : Rendering text₁ bytes₁)
    (h₂ : Rendering text₂ bytes₂) : Rendering (text₁ ++ text₂) (bytes₁ ++ bytes₂) := by
  obtain ⟨body, tail, rfl, hbody, htail⟩ := h₁
  have hrest : Rendering (tail ++ text₂) bytes₂ := h₂.separators_append htail
  rw [List.append_assoc]
  induction hbody with
  | nil => exact hrest
  | cons hseps hc hd _ ih =>
    obtain ⟨body', tail', htext, hbody', htail'⟩ := ih
    refine ⟨_, tail', ?_, .cons hseps hc hd hbody', htail'⟩
    simp [htext]

theorem Rendering.reads {text bytes : Bytes} (h : Rendering text bytes) :
    ∃ pre, Reads text pre bytes := by
  obtain ⟨body, tail, rfl, hbody, htail⟩ := h
  induction hbody with
  | nil => exact ⟨[], .stop (firstPair_separators htail)⟩
  | @cons seps text bytes c d h l hseps hc hd _ ih =>
    obtain ⟨pre, hreads⟩ := ih
    have hsplit : seps ++ c :: d :: text ++ tail = (seps ++ [c, d]) ++ (text ++ tail) := by simp
    rw [hsplit]
    refine ⟨_, .next ?_ hreads⟩
    rw [List.append_assoc]
    exact firstPair_eq hseps hc hd

theorem Rendering.no_nul {text bytes : Bytes} (h : Rendering text bytes) : (0 : UInt8) ∉ text := by
  have hsep : ∀ {seps : Bytes}, (∀ s ∈ seps, isSeparator s = true) → (0 : UInt8) ∉ seps :=
    fun hseps h0 => absurd (hseps 0 h0) (by decide)
  obtain ⟨body, tail, rfl, hbody, htail⟩ := h
  rw [List.mem_append, not_or]
  refine ⟨?_, hsep htail⟩
  induction hbody with
  | nil => exact List.not_mem_nil
  | @cons seps text bytes c d h l hseps hc hd _ ih =>
    have hc0 : 0 ≠ c := by rintro rfl; exact absurd hc (by simp)
    have hd0 : 0 ≠ d := by rintro rfl; exact absurd hd (by simp)
    simp only [List.mem_append, List.mem_cons, not_or]
    exact ⟨hsep hseps, hc0, hd0, ih⟩

/-- Arguments that render chunks, joined with single spaces or without, render
the chunks one behind the other. -/
theorem rendering_join {args : List Bytes} (h : ∀ arg ∈ args, ∃ chunk, Rendering arg chunk) :
    ∃ bytes, Rendering args.flatten bytes ∧
      Rendering (List.intercalate (ascii " ") args) bytes := by
  match args with
  | [] => exact ⟨[], rendering_separators (by simp), rendering_separators (by simp)⟩
  | [arg] =>
    obtain ⟨chunk, hchunk⟩ := h arg List.mem_cons_self
    refine ⟨chunk, ?_, ?_⟩
    · simpa using hchunk
    · rw [List.intercalate_singleton]
      exact hchunk
  | arg :: next :: args =>
    obtain ⟨chunk, hchunk⟩ := h arg List.mem_cons_self
    obtain ⟨bytes, hflat, hjoin⟩ :=
      rendering_join fun a ha => h a (List.mem_cons_of_mem arg ha)
    refine ⟨chunk ++ bytes, ?_, ?_⟩
    · rw [List.flatten_cons]
      exact hchunk.append hflat
    · rw [List.intercalate_cons_cons, List.append_assoc]
      exact hchunk.append (hjoin.separators_append (by decide +kernel))

/-! ## The buffer of the command -/

/-- An append that leaves room for the NUL appends the whole text. -/
theorem appendText_fit {text more : Bytes} (htext : (0 : UInt8) ∉ text) (hmore : (0 : UInt8) ∉ more)
    (hlen : text.length + more.length < hexStrSize) :
    appendText (fit hexStrSize text) more = fit hexStrSize (text ++ more) := by
  have hcstr : cstr (fit hexStrSize text) = text := cstr_fit htext (by omega)
  unfold appendText
  rw [hcstr]
  dsimp only
  split_ifs with hremain
  · -- behind the copy one byte of the buffer is left
    obtain ⟨k, hk⟩ : ∃ k, text.length + k + 1 = hexStrSize :=
      ⟨hexStrSize - text.length - 1, by omega⟩
    have hbuf : fit hexStrSize text = text ++ zeros (k + 1) := by
      rw [fit_of_length_le (by omega), show hexStrSize - text.length = k + 1 by omega]
    have hcopy : strncpyAt (fit hexStrSize text) text.length k more =
        (text ++ more ++ zeros (k - more.length)) ++ zeros 1 := by
      rw [strncpyAt, cstr_eq_self hmore, hbuf, fit_of_length_le (by omega), List.take_left' rfl,
        List.drop_append, List.drop_eq_nil_of_le (by omega), Nat.add_sub_cancel_left]
      simp [zeros]
    have hsize : (text ++ more ++ zeros (k - more.length)).length = hexStrSize - 1 := by
      simp only [List.length_append, length_zeros]
      omega
    rw [show hexStrSize - text.length - 1 = k by omega, hcopy,
      List.set_append_right _ _ (Nat.le_of_eq hsize), hsize, Nat.sub_self,
      show (zeros 1).set 0 0 = zeros 1 from rfl, List.append_assoc, zeros_append,
      fit_of_length_le (by rw [List.length_append]; omega), List.length_append]
    congr 2
    omega
  · obtain rfl : more = [] := List.eq_nil_of_length_eq_zero (by omega)
    rw [List.append_nil]

theorem joinArgs_fit {args : List Bytes} (text : Bytes) (htext : (0 : UInt8) ∉ text)
    (hargs : ∀ arg ∈ args, (0 : UInt8) ∉ arg)
    (hlen : text.length + (List.intercalate (ascii " ") args).length < hexStrSize) :
    joinArgs (fit hexStrSize text) args =
      fit hexStrSize (text ++ List.intercalate (ascii " ") args) := by
  match args with
  | [] => simp [joinArgs]
  | [arg] =>
    rw [List.intercalate_singleton] at hlen ⊢
    exact appendText_fit htext (hargs arg List.mem_cons_self) hlen
  | arg :: next :: args =>
    have harg := hargs arg List.mem_cons_self
    rw [List.intercalate_cons_cons] at hlen ⊢
    simp only [List.length_append] at hlen
    have h1 : (0 : UInt8) ∉ text ++ arg := by simp [htext, harg]
    have hsp : (0 : UInt8) ∉ ascii " " := by decide
    have h2 : (0 : UInt8) ∉ text ++ arg ++ ascii " " := by
      rw [List.mem_append, not_or]
      exact ⟨h1, hsp⟩
    rw [joinArgs, appendText_fit htext harg (by omega),
      appendText_fit h1 hsp (by rw [List.length_append]; omega),
      joinArgs_fit _ h2 (fun a ha => hargs a (List.mem_cons_of_mem arg ha))
        (by simp only [List.length_append]; omega)]
    simp only [List.append_assoc]

/-- A text of at most 255 characters has fewer pairs than the frame holds
bytes. -/
theorem HexPairs.length_le {text bytes : Bytes} (h : HexPairs text bytes) :
    2 * bytes.length ≤ text.length := by
  induction h with
  | nil => exact Nat.le_refl _
  | cons _ _ _ _ ih =>
    simp only [List.length_append, List.length_cons]
    omega

theorem cmdFrame_eq {args : List Bytes} {bytes txBuf : Bytes}
    (hrender : Rendering args.flatten bytes) (hsplit : ∀ arg ∈ args, ∃ chunk, Rendering arg chunk)
    (hlen : (List.intercalate (ascii " ") args).length ≤ 255) (htx : txBuf.length = frameSize) :
    cmdFrame args txBuf = some bytes := by
  obtain ⟨bytes', hflat, hjoin⟩ := rendering_join hsplit
  obtain ⟨_, hreads'⟩ := hflat.reads
  obtain ⟨_, hreads⟩ := hrender.reads
  obtain rfl := hreads.bytes_eq hreads'
  obtain ⟨pre, hjoined⟩ := hjoin.reads
  have hargs : ∀ arg ∈ args, (0 : UInt8) ∉ arg := by
    intro arg harg
    obtain ⟨chunk, hchunk⟩ := hsplit arg harg
    exact hchunk.no_nul
  have hbuf := joinArgs_fit [] List.not_mem_nil hargs
    (by rw [List.length_nil]; unfold hexStrSize; omega)
  generalize List.intercalate (ascii " ") args = joined at *
  have hfit : fit hexStrSize joined = joined ++ 0 :: zeros (hexStrSize - joined.length - 1) := by
    rw [fit_of_length_le (by unfold hexStrSize; omega)]
    congr 1
    rw [show hexStrSize - joined.length = (hexStrSize - joined.length - 1) + 1 by
      unfold hexStrSize; omega]
    rfl
  have hpre := hjoined.hexPairs.1.length_le
  have hpairs := hjoined.hexPairs.2.length_le
  have htake : bytes.take frameSize = bytes :=
    List.take_of_length_le (by unfold frameSize; omega)
  rw [cmdFrame, show zeros hexStrSize = fit hexStrSize [] from rfl, hbuf, List.nil_append, hfit,
    hexStrToBytes_of_reads hjoined hjoin.no_nul _ (Nat.le_of_eq htx.symm), htake, Option.map_some,
    List.take_left' rfl]

/-- The frame of the command is what its arguments render, for every split of
a rendering into arguments.  On any text, `hex_str_to_bytes` gives the bytes of
the longest prefix in the language, cut at `max_len`.  The memory of the text
ends with its NUL and the output has `max_len` bytes: a read or a write outside
of them would be a fault. -/
theorem hex_command :
    (∀ (args : List Bytes) (bytes txBuf : Bytes), args ≠ [] → txBuf.length = frameSize →
      Rendering args.flatten bytes → (∀ arg ∈ args, ∃ chunk, Rendering arg chunk) →
      (List.intercalate (ascii " ") args).length ≤ 255 →
      cmdFrame args txBuf = some bytes ∧
        rs485SendCmd args txBuf = some (if bytes = [] then .invalid else .send bytes)) ∧
    ∀ (text out : Bytes) (maxLen : Nat), (0 : UInt8) ∉ text → out.length = maxLen →
      ∃ pre bytes, LongestPairs text pre bytes ∧
        hexStrToBytes (some (text ++ [0])) (some out) maxLen =
          some ((bytes.take maxLen).length,
            bytes.take maxLen ++ out.drop (bytes.take maxLen).length) := by
  constructor
  · intro args bytes txBuf hne htx hrender hsplit hlen
    have hframe := cmdFrame_eq hrender hsplit hlen htx
    refine ⟨hframe, ?_⟩
    rw [rs485SendCmd, if_neg hne, hframe, Option.map_some]
  · intro text out maxLen h0 hout
    obtain ⟨pre, bytes, hreads⟩ := exists_reads text
    exact ⟨pre, bytes, hreads.longest, hexStrToBytes_of_reads hreads h0 [] (Nat.le_of_eq hout.symm)⟩

/-- Two arguments in both cases with three separators, and a text that stops in
the middle of a pair. -/
theorem hex_command_mixed :
    (cmdFrame [ascii "01,0a", ascii "- FF"] (zeros frameSize) = some [1, 10, 255] ∧
      rs485SendCmd [ascii "01,0a", ascii "- FF"] (zeros frameSize) = some (.send [1, 10, 255])) ∧
    ∃ pre bytes, LongestPairs (ascii "01 2g") pre bytes ∧
      hexStrToBytes (some (ascii "01 2g" ++ [0])) (some (zeros 4)) 4 =
        some ((bytes.take 4).length, bytes.take 4 ++ (zeros 4).drop (bytes.take 4).length) := by
  have h1 : Rendering (ascii "01,0a") [1, 10] := by
    refine ⟨[] ++ 48 :: 49 :: ([44] ++ 48 :: 97 :: []), [], rfl, ?_, by decide +kernel⟩
    exact .cons (h := 0) (l := 1) (by decide +kernel) rfl rfl
      (.cons (h := 0) (l := 10) (by decide +kernel) rfl rfl .nil)
  have h2 : Rendering (ascii "- FF") [255] := by
    refine ⟨[45, 32] ++ 70 :: 70 :: [], [], rfl, ?_, by decide +kernel⟩
    exact .cons (h := 15) (l := 15) (by decide +kernel) rfl rfl .nil
  constructor
  · refine hex_command.1 _ [1, 10, 255] (zeros frameSize) (by decide) (length_zeros _)
      (h1.append h2) ?_ (by decide)
    simp only [List.mem_cons, List.not_mem_nil, or_false, forall_eq_or_imp, forall_eq]
    exact ⟨⟨_, h1⟩, ⟨_, h2⟩⟩
  · exact hex_command.2 (ascii "01 2g") (zeros 4) 4 (by decide) rfl

end Hc32Board.Rs485.HexCommand
