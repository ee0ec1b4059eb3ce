import Hc32Board.CodeLib.Scanf

/-!
# The line reader of the AT client

`at_recv_readline` of `at_client.c`.  The client has one line buffer,
`recv_line_buf`.  A call clears it and then takes one character at a time from
the serial device, until the buffer holds a URC (`get_urc_obj`), the last two
characters are CR LF, or the character is the end sign.

`LineBuf` is the state of a call in progress.  `line` holds the
`recv_line_len` bytes received, and the rest of `recv_line_buf` is zero.
`readLines` is what one call after the other returns.

* `readLines_line`: a text with CR LF only at its end is one line, if it fits
  the buffer and no character of it is the end sign.
* `readLines_cut`: a character that is the end sign ends a line of its own.
* `length_le_of_readLines`: no line is longer than what was received.
-/

namespace Hc32Board.AtClient

open Hc32Board.CodeLib

/-- What a URC handler of the Ai-WB2 driver is for. -/
inductive UrcKind where
  | wifi | recv | close | reconn | autodel
deriving DecidableEq, Repr

/-- `struct at_urc`. -/
structure Urc where
  cmdPrefix : Bytes
  cmdSuffix : Bytes
  kind : UrcKind
deriving DecidableEq, Repr

/-- The URC tables of the Ai-WB2 device and of its sockets, in the order in
which they are registered. -/
def urcTable : List Urc :=
  [⟨ascii "+EVENT:WIFI_CONNECT", [13, 10], .wifi⟩,
    ⟨ascii "+EVENT:WIFI_DISCONNECT", [13, 10], .wifi⟩,
    ⟨ascii "+EVENT:WIFI_GOT_IP", [13, 10], .wifi⟩,
    ⟨ascii "+EVENT:SocketDown,", [13, 10], .recv⟩,
    ⟨ascii "+EVENT:SocketDisconnect,", [13, 10], .close⟩,
    ⟨ascii "+EVENT:SocketReconnect,", [13, 10], .reconn⟩,
    ⟨ascii "+EVENT:SocketAutoDel,", [13, 10], .autodel⟩]

/-- The line has the prefix and the suffix of the URC, one behind the
other. -/
def Urc.matches (u : Urc) (line : Bytes) : Bool :=
  decide (u.cmdPrefix.length + u.cmdSuffix.length ≤ line.length) &&
    u.cmdPrefix.isPrefixOf line && u.cmdSuffix.isSuffixOf line

/-- `get_urc_obj`: the first entry that matches. -/
def getUrcObj (line : Bytes) : Option Urc := urcTable.find? (·.matches line)

/-- A call of `at_recv_readline` in progress. -/
structure LineBuf where
  line : Bytes
  lastCh : UInt8
  isFull : Bool
deriving DecidableEq, Repr

/-- The start of a call: the buffer is cleared. -/
def LineBuf.enter : LineBuf := ⟨[], 0, false⟩

/-- What a character does to a call. -/
inductive RxResult where
  /-- The call goes on. -/
  | more (b : LineBuf)
  /-- The call returns this line, and `client->urc` is set. -/
  | line (bytes : Bytes) (urc : Option Urc)
  /-- The line did not fit the buffer.  The buffer is cleared and the call
  returns an error. -/
  | full
deriving DecidableEq, Repr

/-- One turn of the loop of `at_recv_readline`, with a buffer of `bufsz`
bytes. -/
def LineBuf.rxChar (bufsz : Nat) (endSign : UInt8) (b : LineBuf) (ch : UInt8) : RxResult :=
  let fits := decide (b.line.length < bufsz)
  let line := if fits then b.line ++ [ch] else b.line
  let isFull := b.isFull || !fits
  if (getUrcObj line).isSome || (ch == 10 && b.lastCh == 13) ||
      (endSign != 0 && ch == endSign) then
    if isFull then .full else .line line (getUrcObj line)
  else .more ⟨line, ch, isFull⟩

/-- A line ends with the character that completed it.  If it is not a URC, that
is a line feed or the end sign. -/
theorem rxChar_line {bufsz : Nat} {endSign ch : UInt8} {b : LineBuf} {bytes : Bytes}
    {urc : Option Urc} (h : b.rxChar bufsz endSign ch = .line bytes urc) :
    urc = getUrcObj bytes ∧ bytes.getLast? = some ch ∧
      (urc = none → ch = 10 ∨ (endSign ≠ 0 ∧ ch = endSign)) := by
  unfold LineBuf.rxChar at h
  dsimp only at h
  split_ifs at h with hfits hstop hfull hstop' hfull'
  · obtain ⟨rfl, rfl⟩ := RxResult.line.inj h
    refine ⟨rfl, List.getLast?_concat, fun hurc => ?_⟩
    rw [hurc] at hstop
    simp only [Option.isSome_none, Bool.false_or, Bool.or_eq_true, Bool.and_eq_true, beq_iff_eq,
      bne_iff_ne] at hstop
    rcases hstop with hnl | hsign
    · exact .inl hnl.1
    · exact .inr hsign
  · -- a line that did not fit is not returned
    exact absurd (by rw [Bool.eq_false_iff.mpr hfits]; exact Bool.or_true _) hfull'

/-! ## The URC table -/

theorem cmdSuffix_of_mem : ∀ u ∈ urcTable, u.cmdSuffix = [13, 10] := by decide

/-- A line of the table ends in CR LF. -/
theorem crlf_of_getUrcObj {line : Bytes} {u : Urc} (h : getUrcObj line = some u) :
    ∃ body, line = body ++ [13, 10] := by
  have hmatch : u.matches line = true := List.find?_some (p := fun u : Urc => u.matches line) h
  simp only [Urc.matches, Bool.and_eq_true, cmdSuffix_of_mem u (List.mem_of_find?_eq_some h)]
    at hmatch
  obtain ⟨body, hbody⟩ := List.isSuffixOf_iff_suffix.mp hmatch.2
  exact ⟨body, hbody.symm⟩

/-- Nothing but a CR LF at the end makes a text a line of the table. -/
theorem getUrcObj_of_not_crlf {text : Bytes} (h : ∀ body, text ≠ body ++ [13, 10]) :
    getUrcObj text = none := by
  cases hurc : getUrcObj text with
  | none => rfl
  | some u =>
    obtain ⟨body, hbody⟩ := crlf_of_getUrcObj hurc
    exact absurd hbody (h body)

/-- Every URC begins with a `+`. -/
theorem getUrcObj_of_head {c : UInt8} (h : c ≠ 43) (rest : Bytes) :
    getUrcObj (c :: rest) = none := by
  have hplus : ∀ u ∈ urcTable, u.cmdPrefix.head? = some 43 := by decide
  refine List.find?_eq_none.mpr fun u hu hmatch => ?_
  simp only [Urc.matches, Bool.and_eq_true] at hmatch
  obtain ⟨tail, htail⟩ := List.isPrefixOf_iff_prefix.mp hmatch.1.2
  have hhead := hplus u hu
  cases hpre : u.cmdPrefix with
  | nil => rw [hpre] at hhead; cases hhead
  | cons b bs =>
    rw [hpre] at hhead htail
    obtain rfl := Option.some.inj hhead
    exact h (List.cons.inj htail).1.symm

/-! ## One call after the other -/

/-- A character of the serial device, with the end sign that is set when
`at_recv_readline` takes it. -/
structure RxIn where
  endSign : UInt8
  ch : UInt8
deriving DecidableEq, Repr

/-- The character is the end sign. -/
def RxIn.cuts (x : RxIn) : Bool := x.endSign != 0 && x.ch == x.endSign

/-- The characters of a text, with one end sign for all of them. -/
def rxText (endSign : UInt8) (text : Bytes) : List RxIn := text.map fun ch => ⟨endSign, ch⟩

/-- The lines that `at_recv_readline` returns to `client_parser`, which calls it
again each time. -/
def readLines (bufsz : Nat) : LineBuf → List RxIn → List (Bytes × Option Urc)
  | _, [] => []
  | b, x :: input =>
    match b.rxChar bufsz x.endSign x.ch with
    | .more b => readLines bufsz b input
    | .line bytes urc => (bytes, urc) :: readLines bufsz .enter input
    | .full => readLines bufsz .enter input

theorem length_line_rxChar {bufsz : Nat} {endSign ch : UInt8} {b : LineBuf} :
    (∀ b', b.rxChar bufsz endSign ch = .more b' → b'.line.length ≤ b.line.length + 1) ∧
      ∀ bytes urc, b.rxChar bufsz endSign ch = .line bytes urc →
        bytes.length ≤ b.line.length + 1 := by
  obtain ⟨line, hline⟩ : ∃ line,
      (if decide (b.line.length < bufsz) then b.line ++ [ch] else b.line) = line := ⟨_, rfl⟩
  have hlen : line.length ≤ b.line.length + 1 := by
    rw [← hline]
    split_ifs <;> simp
  unfold LineBuf.rxChar
  dsimp only
  rw [hline]
  refine ⟨fun b' h => ?_, fun bytes urc h => ?_⟩
  · split_ifs at h
    obtain rfl := RxResult.more.inj h
    exact hlen
  · split_ifs at h
    obtain ⟨rfl, -⟩ := RxResult.line.inj h
    exact hlen

/-- A line is no longer than what was received, and its URC is that of the
table. -/
theorem length_le_of_readLines {bufsz : Nat} {b : LineBuf} {input : List RxIn}
    {l : Bytes × Option Urc} (h : l ∈ readLines bufsz b input) :
    l.1.length ≤ b.line.length + input.length ∧ l.2 = getUrcObj l.1 := by
  induction input generalizing b with
  | nil => exact absurd h List.not_mem_nil
  | cons x input ih =>
    have hlen := @length_line_rxChar bufsz x.endSign x.ch b
    rw [readLines] at h
    rw [List.length_cons]
    split at h
    · rename_i b' hchar
      have hmore := hlen.1 b' hchar
      obtain ⟨hle, hurc⟩ := ih h
      exact ⟨by omega, hurc⟩
    · rename_i bytes urc hchar
      rcases List.mem_cons.mp h with rfl | h
      · have hbytes := hlen.2 bytes urc hchar
        exact ⟨by dsimp only; omega, (rxChar_line hchar).1⟩
      · obtain ⟨hle, hurc⟩ := ih h
        exact ⟨by simp only [LineBuf.enter, List.length_nil] at hle; omega, hurc⟩
    · obtain ⟨hle, hurc⟩ := ih h
      exact ⟨by simp only [LineBuf.enter, List.length_nil] at hle; omega, hurc⟩

/-! ## A text without CR LF -/

/-- CR LF is nowhere in the text. -/
def NoCrlf (text : Bytes) : Prop := ∀ a b, text ≠ a ++ [13, 10] ++ b

/-- CR LF is nowhere in the text but at its end. -/
def CrlfAtEnd (text : Bytes) : Prop := ∀ a b, text = a ++ [13, 10] ++ b → b = []

theorem NoCrlf.of_prefix {text pre : Bytes} (h : NoCrlf text) (hpre : pre <+: text) :
    NoCrlf pre := by
  obtain ⟨rest, rfl⟩ := hpre
  intro a b hab
  exact h a (b ++ rest) (by rw [hab, List.append_assoc])

theorem crlfAtEnd_of_no_lf {text : Bytes} (h : (10 : UInt8) ∉ text) :
    CrlfAtEnd (text ++ [13, 10]) := by
  intro a b hab
  by_contra hne
  have hmem : (10 : UInt8) ∈ (a ++ [13, 10] ++ b).dropLast := by
    rw [List.dropLast_append_of_ne_nil hne]
    simp
  rw [← hab, show text ++ [13, 10] = text ++ [13] ++ [10] by simp, List.dropLast_concat] at hmem
  rcases List.mem_append.mp hmem with h10 | h10
  · exact h h10
  · exact absurd (List.mem_singleton.mp h10) (by decide)

/-- What ends with another character than LF has no CR LF. -/
theorem CrlfAtEnd.noCrlf {text rest : Bytes} {c : UInt8} (h : CrlfAtEnd (text ++ [c] ++ rest))
    (hc : c ≠ 10) : NoCrlf (text ++ [c]) := by
  intro a b hab
  obtain ⟨rfl, -⟩ := List.append_eq_nil_iff.mp (h a (b ++ rest) (by rw [hab, List.append_assoc]))
  have hlast := congrArg List.getLast? hab
  simp at hlast
  exact hc hlast

theorem NoCrlf.getUrcObj {text : Bytes} (h : NoCrlf text) : getUrcObj text = none :=
  getUrcObj_of_not_crlf fun body hbody => h body [] (by rw [hbody, List.append_nil])

theorem NoCrlf.not_crlf {text : Bytes} {ch : UInt8} (h : NoCrlf (text ++ [ch])) :
    (ch == 10 && text.getLastD 0 == 13) = false := by
  rw [Bool.eq_false_iff]
  intro hcrlf
  obtain ⟨h10, h13⟩ := Bool.and_eq_true_iff.mp hcrlf
  rw [beq_iff_eq] at h10 h13
  rcases List.eq_nil_or_concat text with rfl | ⟨body, c, rfl⟩
  · exact absurd h13 (by decide)
  · rw [List.concat_eq_append, List.getLastD_concat] at h13
    exact h body [] (by rw [h10, h13]; simp)

/-- The call that has taken these characters and goes on. -/
def LineBuf.after (bufsz : Nat) (text : Bytes) : LineBuf :=
  ⟨text.take bufsz, text.getLastD 0, decide (bufsz < text.length)⟩

theorem after_nil (bufsz : Nat) : LineBuf.after bufsz [] = .enter := by
  rw [LineBuf.after, List.take_nil, decide_eq_false (by simp)]
  rfl

/-- One turn of the loop, by the characters taken so far. -/
theorem rxChar_after (bufsz : Nat) (text : Bytes) (endSign ch : UInt8) :
    (LineBuf.after bufsz text).rxChar bufsz endSign ch =
      if (getUrcObj ((text ++ [ch]).take bufsz)).isSome || (ch == 10 && text.getLastD 0 == 13) ||
          (endSign != 0 && ch == endSign) then
        if text.length < bufsz then .line (text ++ [ch]) (getUrcObj (text ++ [ch])) else .full
      else .more (.after bufsz (text ++ [ch])) := by
  by_cases hfits : text.length < bufsz
  · have htake : text.take bufsz = text := List.take_of_length_le hfits.le
    have htake' : (text ++ [ch]).take bufsz = text ++ [ch] :=
      List.take_of_length_le (by rw [List.length_append]; exact hfits)
    have hnot : ¬ bufsz < text.length := by omega
    have hnot' : ¬ bufsz < text.length + 1 := by omega
    simp [LineBuf.rxChar, LineBuf.after, htake, htake', hfits, hnot, hnot']
  · have htake : (text ++ [ch]).take bufsz = text.take bufsz :=
      List.take_append_of_le_length (by omega)
    have hlen : (text.take bufsz).length = bufsz := by rw [List.length_take]; omega
    have hlt : bufsz < text.length + 1 := by omega
    simp [LineBuf.rxChar, LineBuf.after, htake, hlen, hfits, hlt]

/-- Characters without a CR LF and without the end sign are collected. -/
theorem readLines_collect (bufsz : Nat) {pre : List RxIn} (rest : List RxIn)
    (hcut : ∀ x ∈ pre, x.cuts = false) (text : Bytes) (htext : NoCrlf (text ++ pre.map (·.ch))) :
    readLines bufsz (.after bufsz text) (pre ++ rest) =
      readLines bufsz (.after bufsz (text ++ pre.map (·.ch))) rest := by
  induction pre generalizing text with
  | nil => rw [List.map_nil, List.append_nil, List.nil_append]
  | cons x pre ih =>
    have hassoc : text ++ (x :: pre).map (·.ch) = text ++ [x.ch] ++ pre.map (·.ch) := by simp
    rw [hassoc] at htext ⊢
    have hnext : NoCrlf (text ++ [x.ch]) := htext.of_prefix (List.prefix_append _ _)
    have hurc := (hnext.of_prefix (List.take_prefix bufsz _)).getUrcObj
    have hsign : (x.endSign != 0 && x.ch == x.endSign) = false := hcut x List.mem_cons_self
    rw [← ih (fun y hy => hcut y (List.mem_cons_of_mem _ hy)) _ htext, List.cons_append, readLines,
      rxChar_after, hurc, hnext.not_crlf, hsign]
    rfl

/-- A character that is the end sign ends the line before CR LF. -/
theorem readLines_cut {bufsz : Nat} {text : Bytes} {x : RxIn} (hcut : x.cuts = true)
    (htext : NoCrlf (text ++ [x.ch])) (rest : List RxIn) :
    readLines bufsz (.after bufsz text) (x :: rest) =
      (if text.length < bufsz then [(text ++ [x.ch], none)] else []) ++
        readLines bufsz .enter rest := by
  have hsign : (x.endSign != 0 && x.ch == x.endSign) = true := hcut
  rw [readLines, rxChar_after, hsign, Bool.or_true, if_pos rfl, htext.getUrcObj]
  split_ifs <;> rfl

/-- A text with CR LF at its end and nowhere else is one line. -/
theorem readLines_line (bufsz : Nat) {input : List RxIn} {body : Bytes}
    (htext : input.map (·.ch) = body ++ [13, 10]) (hcrlf : CrlfAtEnd (body ++ [13, 10]))
    (hcut : ∀ x ∈ input, x.cuts = false) (rest : List RxIn) :
    readLines bufsz .enter (input ++ rest) =
      (if body.length + 2 ≤ bufsz then
          [(body ++ [13, 10], getUrcObj (body ++ [13, 10]))] else []) ++
        readLines bufsz .enter rest := by
  have hsplit : body ++ [13, 10] = body ++ [13] ++ [10] := by simp
  rw [hsplit] at htext hcrlf ⊢
  -- the last character is the LF
  obtain ⟨pre, last, rfl, hpre, hlast⟩ := List.map_eq_append_iff.mp htext
  obtain ⟨x, rfl, hx⟩ : ∃ x, last = [x] ∧ x.ch = 10 := by
    obtain ⟨x, tail, rfl, hx, htail⟩ := List.map_eq_cons_iff.mp hlast
    exact ⟨x, by rw [List.map_eq_nil_iff.mp htail], hx⟩
  have hpreCut : ∀ y ∈ pre, y.cuts = false := fun y hy => hcut y (List.mem_append_left _ hy)
  have hno : NoCrlf ([] ++ pre.map (·.ch)) := by
    rw [List.nil_append, hpre]
    exact hcrlf.noCrlf (by decide)
  have hlen : (body ++ [13]).length < bufsz ↔ body.length + 2 ≤ bufsz := by
    rw [List.length_append, List.length_singleton]
    omega
  rw [← after_nil bufsz, List.append_assoc, readLines_collect _ _ hpreCut _ hno, List.nil_append,
    hpre, List.singleton_append, readLines, rxChar_after, hx, List.getLastD_concat]
  simp only [beq_self_eq_true, Bool.and_self, Bool.or_true, Bool.true_or, if_true, hlen, after_nil]
  split_ifs <;> rfl

end Hc32Board.AtClient
