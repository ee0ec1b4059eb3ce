import Hc32Board.AiWb2.Receive

/-!
# Decoding of received data

A line `+EVENT:SocketDown,<ConID>,<len>,<payload>`, from the characters of the
serial device to the call of the receive callback in `urc_recv_func`.

* `recvCalls_of_noCut`: `at_recv_readline` returns the line as a whole, if CR LF
  is only at its end and no character of it is the end sign.
* `recvCalls_of_cut`: `aiwb2_socket_send` sets the end sign to `>` while it waits
  for the prompt of the module.  A `>` in a payload then ends the line, and no
  callback gets the payload.
* `recvCall_socketDownLine`: the callback gets exactly the payload.  The start
  is behind the third comma, so commas in the payload do not matter, and neither
  does a NUL there, because the header is all that is read as a string.
* `recvCall_in_line`: for any other line of the table the range ends before the
  CR LF, whatever length the line declares.

The model reads a line as a C string that ends with the line at the latest.
That is the case for a line that leaves room for a zero in the line buffer.
-/

namespace Hc32Board.AiWb2

open Hc32Board.CodeLib
open Hc32Board.AtSocket
open Hc32Board.AtClient

/-! ## The callback -/

/-- A call of the receive callback: the socket, and the range of the line that
is passed to it. -/
structure RecvCall where
  socket : Nat
  off : Nat
  bfsz : Nat
deriving DecidableEq, Repr

/-- `urc_recv_func`: the call of the receive callback. -/
def recvCall (sockets : List Slot) (line : Bytes) : Option RecvCall :=
  (urcRecvFunc line).bind fun r =>
    (aiwb2FindSocket sockets r.conId).map fun i => ⟨i, r.off, r.bfsz⟩

/-- The entry of the URC table for received data. -/
def recvUrc : Urc := ⟨ascii "+EVENT:SocketDown,", [13, 10], .recv⟩

/-! ## The line -/

/-- The line up to its payload. -/
def socketDownHead (conId len : Nat) : Bytes :=
  ascii "+EVENT:SocketDown," ++ decimal conId ++ [44] ++ decimal len ++ [44]

/-- The line with a payload and its length. -/
def socketDownLine (conId : Nat) (payload : Bytes) : Bytes :=
  socketDownHead conId payload.length ++ payload ++ [13, 10]

theorem notMem_decimal {c : UInt8} (hc : isDigit c = false) (n : Nat) : c ∉ decimal n := by
  intro h
  rw [isDigit_of_mem_decimal n c h] at hc
  exact absurd hc (by decide)

theorem notMem_socketDownHead {c : UInt8} (hc : isDigit c = false) (hcomma : c ≠ 44)
    (hhead : c ∉ ascii "+EVENT:SocketDown,") (conId len : Nat) : c ∉ socketDownHead conId len := by
  simp only [socketDownHead, List.mem_append, List.mem_singleton, not_or]
  exact ⟨⟨⟨⟨hhead, notMem_decimal hc conId⟩, hcomma⟩, notMem_decimal hc len⟩, hcomma⟩

theorem cstr_socketDownLine (conId : Nat) (payload : Bytes) :
    cstr (socketDownLine conId payload) =
      socketDownHead conId payload.length ++ cstr (payload ++ [13, 10]) := by
  rw [socketDownLine, List.append_assoc]
  exact cstr_append (notMem_socketDownHead (by decide) (by decide) (by decide) _ _) _

/-! ## The header -/

theorem noDigitNext_comma (rest : Bytes) : NoDigitNext (44 :: rest) := by
  intro c hc
  obtain rfl := Option.some.inj hc
  rfl

theorem sscanf_socketDownLine {conId : Nat} (hint : conId < 2 ^ 31) {payload : Bytes}
    (hlen : payload.length < 2 ^ 31) :
    sscanf (socketDownLine conId payload) "+EVENT:SocketDown,%d,%d" =
      [(conId : Int), (payload.length : Int)] := by
  have hformat : directives (ascii "+EVENT:SocketDown,%d,%d") =
      (ascii "+EVENT:SocketDown,").map .char ++ [.int, .char 44, .int] := by decide
  have hassoc : ∀ rest, socketDownHead conId payload.length ++ rest =
      ascii "+EVENT:SocketDown," ++
        (decimal conId ++ 44 :: (decimal payload.length ++ 44 :: rest)) := by
    intro rest
    simp [socketDownHead]
  rw [sscanf, hformat, cstr_socketDownLine, hassoc, scan_literal,
    scan_int_decimal hint (noDigitNext_comma _), scan, if_pos rfl,
    scan_int_decimal hlen (noDigitNext_comma _), scan]

theorem strchr_of_split {data pre mid rest : Bytes} {ch : UInt8}
    (h : cstr data = pre ++ mid ++ ch :: rest) (hmid : ch ∉ mid) :
    strchr data pre.length ch = some (pre.length + mid.length) := by
  have hnone : mid.findIdx? (· == ch) = none := by
    rw [List.findIdx?_eq_none_iff]
    intro c hc
    rw [beq_eq_false_iff_ne]
    rintro rfl
    exact hmid hc
  rw [strchr, h, List.append_assoc, List.drop_left, List.findIdx?_append, hnone]
  simp [List.findIdx?_cons]

theorem dataPtr_of_split {data a b c rest : Bytes}
    (h : cstr data = a ++ 44 :: (b ++ 44 :: (c ++ 44 :: rest))) (ha : 44 ∉ a) (hb : 44 ∉ b)
    (hc : 44 ∉ c) : dataPtr data = some (a.length + 1 + b.length + 1 + c.length + 1) := by
  have hfirst : cstr data = [] ++ a ++ 44 :: (b ++ 44 :: (c ++ 44 :: rest)) := h
  have hsecond : cstr data = a ++ [44] ++ b ++ 44 :: (c ++ 44 :: rest) := by rw [h]; simp
  have hthird : cstr data = a ++ [44] ++ b ++ [44] ++ c ++ 44 :: rest := by rw [h]; simp
  have h1 := strchr_of_split hfirst ha
  have h2 := strchr_of_split hsecond hb
  have h3 := strchr_of_split hthird hc
  simp only [List.length_append, List.length_singleton, List.length_nil, Nat.zero_add] at h1 h2 h3
  rw [dataPtr, h1, Option.bind_eq_bind, Option.bind_some, h2, Option.bind_some, h3]
  rfl

/-- The payload starts behind the third comma. -/
theorem dataPtr_socketDownLine (conId : Nat) (payload : Bytes) :
    dataPtr (socketDownLine conId payload) =
      some (socketDownHead conId payload.length).length := by
  have hsplit : cstr (socketDownLine conId payload) =
      ascii "+EVENT:SocketDown" ++ 44 :: (decimal conId ++
        44 :: (decimal payload.length ++ 44 :: cstr (payload ++ [13, 10]))) := by
    rw [cstr_socketDownLine, socketDownHead, show ascii "+EVENT:SocketDown," =
      ascii "+EVENT:SocketDown" ++ [44] by decide]
    simp only [List.append_assoc, List.cons_append, List.nil_append]
  rw [dataPtr_of_split hsplit (by decide) (notMem_decimal (by decide) _)
    (notMem_decimal (by decide) _)]
  simp only [socketDownHead, List.length_append, List.length_singleton]
  rfl

theorem availLen_append_crlf {body : Bytes} {off : Nat} (h : off ≤ body.length) :
    availLen (body ++ [13, 10]) off = body.length - off := by
  have hsuffix : ([13, 10] : Bytes).isSuffixOf (body ++ [13, 10]) = true :=
    List.isSuffixOf_iff_suffix.mpr ⟨body, rfl⟩
  have hlen : (body ++ [13, 10]).length - off = body.length - off + 2 := by
    rw [List.length_append]
    simp only [List.length_cons, List.length_nil]
    omega
  rw [availLen, hsuffix, hlen, Bool.and_true, if_pos (by simp), Nat.add_sub_cancel]

/-! ## The payload -/

theorem urcRecvFunc_socketDownLine {conId : Nat} (hint : conId < 2 ^ 31) {payload : Bytes}
    (hne : payload ≠ []) (hlen : payload.length < 2 ^ 31) :
    urcRecvFunc (socketDownLine conId payload) =
      some ⟨conId, (socketDownHead conId payload.length).length, payload.length⟩ := by
  have hpos : 0 < payload.length := List.length_pos_iff.mpr hne
  have hbfsz : ((payload.length : Int) % 2 ^ 32).toNat = payload.length := by omega
  have havail : availLen (socketDownLine conId payload)
      (socketDownHead conId payload.length).length = payload.length := by
    rw [socketDownLine, availLen_append_crlf (by rw [List.length_append]; omega),
      List.length_append]
    omega
  rw [urcRecvFunc, sscanf_socketDownLine hint hlen]
  dsimp only
  rw [dataPtr_socketDownLine, Option.bind_some, hbfsz, havail, Nat.min_self, if_neg]
  simp only [Bool.or_eq_true, decide_eq_true_eq, not_or]
  omega

/-- A matching socket has a ConID in the range of an `int`. -/
theorem conId_lt_of_find {sockets : List Slot} (hint : ∀ sock ∈ sockets, sock.userData < 2 ^ 31)
    {conId i : Nat} (hfind : aiwb2FindSocket sockets conId = some i) : conId < 2 ^ 31 := by
  unfold aiwb2FindSocket at hfind
  split_ifs at hfind
  obtain ⟨hi, hmatch, -⟩ := List.findIdx?_eq_some_iff_getElem.mp hfind
  have huser := hint _ (List.getElem_mem hi)
  rw [beq_iff_eq] at hmatch
  omega

/-- The callback of the matching socket gets exactly the payload. -/
theorem recvCall_socketDownLine {sockets : List Slot}
    (hint : ∀ sock ∈ sockets, sock.userData < 2 ^ 31) {conId i : Nat}
    (hfind : aiwb2FindSocket sockets conId = some i) {payload : Bytes} (hne : payload ≠ [])
    (hlen : payload.length < 2 ^ 31) :
    ∃ off, recvCall sockets (socketDownLine conId payload) = some ⟨i, off, payload.length⟩ ∧
      readAt (socketDownLine conId payload) off payload.length = payload := by
  refine ⟨(socketDownHead conId payload.length).length, ?_, ?_⟩
  · rw [recvCall, urcRecvFunc_socketDownLine (conId_lt_of_find hint hfind) hne hlen,
      Option.bind_some, hfind]
    rfl
  · rw [socketDownLine, readAt_eq_take_drop (by simp only [List.length_append]; omega),
      List.append_assoc, List.drop_left, List.take_left]

/-! ## Other lines -/

theorem getElem?_of_strchr {data : Bytes} {start p : Nat} {ch : UInt8}
    (h : strchr data start ch = some p) : data[p]? = some ch := by
  obtain ⟨k, hk, rfl⟩ := Option.map_eq_some_iff.mp h
  obtain ⟨hlt, hmatch, -⟩ := List.findIdx?_eq_some_iff_getElem.mp hk
  rw [List.length_drop] at hlt
  rw [beq_iff_eq, List.getElem_drop] at hmatch
  have hin : start + k < (cstr data).length := by omega
  obtain ⟨rest, hrest⟩ : cstr data <+: data := List.takeWhile_prefix _
  rw [← hrest, List.getElem?_append_left hin, List.getElem?_eq_getElem hin, hmatch]

/-- The payload starts before the CR LF. -/
theorem dataPtr_le {body : Bytes} {off : Nat} (h : dataPtr (body ++ [13, 10]) = some off) :
    off ≤ body.length := by
  obtain ⟨p₁, -, h⟩ := Option.bind_eq_some_iff.mp h
  obtain ⟨p₂, -, h⟩ := Option.bind_eq_some_iff.mp h
  obtain ⟨p₃, hp, h⟩ := Option.bind_eq_some_iff.mp h
  obtain rfl := Option.some.inj h
  have hcomma := getElem?_of_strchr hp
  -- the comma is neither of the two last characters
  by_contra hlt
  have hle : body.length ≤ p₃ := by omega
  rw [List.getElem?_append_right hle] at hcomma
  obtain ⟨k, hk⟩ : ∃ k, p₃ - body.length = k := ⟨_, rfl⟩
  rw [hk] at hcomma
  match k with
  | 0 => exact absurd hcomma (by decide)
  | 1 => exact absurd hcomma (by decide)
  | k + 2 => exact absurd hcomma (by simp)

theorem dataPtr_pos {data : Bytes} {off : Nat} (h : dataPtr data = some off) : 0 < off := by
  obtain ⟨p₁, -, h⟩ := Option.bind_eq_some_iff.mp h
  obtain ⟨p₂, -, h⟩ := Option.bind_eq_some_iff.mp h
  obtain ⟨p₃, -, h⟩ := Option.bind_eq_some_iff.mp h
  obtain rfl := Option.some.inj h
  exact Nat.succ_pos p₃

/-- The range of the callback starts behind the first character of the line and
ends before the CR LF. -/
theorem recvCall_in_line {sockets : List Slot} {body : Bytes} {call : RecvCall}
    (h : recvCall sockets (body ++ [13, 10]) = some call) :
    0 < call.off ∧ call.off + call.bfsz ≤ body.length := by
  obtain ⟨r, hr, hcall⟩ := Option.bind_eq_some_iff.mp h
  obtain ⟨i, -, rfl⟩ := Option.map_eq_some_iff.mp hcall
  unfold urcRecvFunc at hr
  split at hr
  · obtain ⟨off, hoff, hr⟩ := Option.bind_eq_some_iff.mp hr
    dsimp only at hr
    split_ifs at hr
    obtain rfl := Option.some.inj hr
    have hle := dataPtr_le hoff
    dsimp only
    rw [availLen_append_crlf hle]
    exact ⟨dataPtr_pos hoff, by omega⟩
  · exact absurd hr (by simp)

/-! ## The reader -/

/-- Of two texts that a line begins with, one begins with the other. -/
theorem matches_of_not_prefix {u : Urc} {pre rest : Bytes} (h1 : ¬ u.cmdPrefix <+: pre)
    (h2 : ¬ pre <+: u.cmdPrefix) : ¬ u.matches (pre ++ rest) = true := by
  intro hmatch
  simp only [Urc.matches, Bool.and_eq_true] at hmatch
  have hprefix := List.isPrefixOf_iff_prefix.mp hmatch.1.2
  rcases List.prefix_or_prefix_of_prefix hprefix (List.prefix_append pre rest) with h | h
  · exact h1 h
  · exact h2 h

theorem getUrcObj_recv (body : Bytes) :
    getUrcObj (ascii "+EVENT:SocketDown," ++ body ++ [13, 10]) = some recvUrc := by
  have hmatch : recvUrc.matches (ascii "+EVENT:SocketDown," ++ body ++ [13, 10]) = true := by
    simp only [Urc.matches, Bool.and_eq_true, decide_eq_true_eq]
    refine ⟨⟨?_, ?_⟩, ?_⟩
    · simp only [recvUrc, List.length_append]
      omega
    · rw [List.append_assoc]
      exact List.isPrefixOf_iff_prefix.mpr (List.prefix_append _ _)
    · exact List.isSuffixOf_iff_suffix.mpr ⟨_, rfl⟩
  -- the entries before it have other beginnings
  have h1 : ∀ u ∈ urcTable.take 3, ¬ u.cmdPrefix <+: ascii "+EVENT:SocketDown," := by decide
  have h2 : ∀ u ∈ urcTable.take 3, ¬ ascii "+EVENT:SocketDown," <+: u.cmdPrefix := by decide
  have hsplit : urcTable = urcTable.take 3 ++ recvUrc :: urcTable.drop 4 := by decide
  rw [List.append_assoc] at hmatch ⊢
  have hnone : (urcTable.take 3).find?
      (fun u => u.matches (ascii "+EVENT:SocketDown," ++ (body ++ [13, 10]))) = none :=
    List.find?_eq_none.mpr fun u hu => matches_of_not_prefix (h1 u hu) (h2 u hu)
  rw [getUrcObj, hsplit, List.find?_append, hnone, Option.none_or]
  exact List.find?_cons_of_pos hmatch

theorem getUrcObj_socketDownLine (conId : Nat) (payload : Bytes) :
    getUrcObj (socketDownLine conId payload) = some recvUrc := by
  have hsplit : socketDownLine conId payload = ascii "+EVENT:SocketDown," ++
      (decimal conId ++ [44] ++ decimal payload.length ++ [44] ++ payload) ++ [13, 10] := by
    simp only [socketDownLine, socketDownHead, List.append_assoc]
  rw [hsplit]
  exact getUrcObj_recv _

/-- The header has no CR, so a CR LF of the line is one of the payload. -/
theorem crlfAtEnd_socketDownLine (conId : Nat) {payload : Bytes}
    (hpayload : CrlfAtEnd (payload ++ [13, 10])) : CrlfAtEnd (socketDownLine conId payload) := by
  intro a b h
  have hcr : (13 : UInt8) ∉ socketDownHead conId payload.length :=
    notMem_socketDownHead (by decide) (by decide) (by decide) _ _
  rw [socketDownLine, List.append_assoc, List.append_assoc, List.append_eq_append_iff] at h
  rcases h with ⟨c, -, hrest⟩ | ⟨c, hc, hrest⟩
  · exact hpayload c b (by rw [hrest, List.append_assoc])
  · cases c with
    | nil => exact hpayload [] b hrest.symm
    | cons x c =>
      obtain ⟨rfl, -⟩ := List.cons.inj hrest
      exact absurd (hc ▸ List.mem_append_right a List.mem_cons_self) hcr

/-! ## From the characters to the callback -/

/-- `client_parser` on a line: the socket whose receive callback is called, and
the bytes that it gets. -/
def lineCall (sockets : List Slot) (line : Bytes × Option Urc) : Option (Nat × Bytes) :=
  match line.2 with
  | some u =>
    if u.kind = .recv then
      (recvCall sockets line.1).map fun call => (call.socket, readAt line.1 call.off call.bfsz)
    else none
  | none => none

/-- The calls of the receive callback for what the serial device delivers. -/
def recvCalls (bufsz : Nat) (sockets : List Slot) (input : List RxIn) : List (Nat × Bytes) :=
  (readLines bufsz .enter input).filterMap (lineCall sockets)

/-- The header and the CR LF are no part of what a callback gets. -/
theorem length_le_of_recvCalls {bufsz : Nat} {sockets : List Slot} {input : List RxIn}
    {call : Nat × Bytes} (h : call ∈ recvCalls bufsz sockets input) :
    call.2.length + 3 ≤ input.length := by
  obtain ⟨⟨line, urc⟩, hline, hcall⟩ := List.mem_filterMap.mp h
  obtain ⟨hlen, htable⟩ := length_le_of_readLines hline
  simp only [LineBuf.enter, List.length_nil, Nat.zero_add] at hlen
  unfold lineCall at hcall
  split at hcall
  · rename_i u hurc
    rw [htable] at hurc
    split_ifs at hcall
    obtain ⟨c, hc, rfl⟩ := Option.map_eq_some_iff.mp hcall
    obtain ⟨body, rfl⟩ := crlf_of_getUrcObj hurc
    obtain ⟨hoff, hend⟩ := recvCall_in_line hc
    rw [List.length_append, List.length_cons, List.length_singleton] at hlen
    rw [length_readAt]
    omega
  · exact absurd hcall (by simp)

/-- The line is read as a whole, or not at all. -/
theorem recvCalls_of_noCut {bufsz : Nat} {sockets : List Slot} {input : List RxIn}
    {conId i : Nat} {payload : Bytes} (hint : ∀ sock ∈ sockets, sock.userData < 2 ^ 31)
    (hfind : aiwb2FindSocket sockets conId = some i) (hne : payload ≠ [])
    (hlen : payload.length < 2 ^ 31) (hpayload : CrlfAtEnd (payload ++ [13, 10]))
    (hinput : input.map (·.ch) = socketDownLine conId payload)
    (hcut : ∀ x ∈ input, x.cuts = false) :
    recvCalls bufsz sockets input =
      if (socketDownLine conId payload).length ≤ bufsz then [(i, payload)] else [] := by
  obtain ⟨off, hcall, hread⟩ := recvCall_socketDownLine hint hfind hne hlen
  have hcrlf := crlfAtEnd_socketDownLine conId hpayload
  have hurc := getUrcObj_socketDownLine conId payload
  have hlength : (socketDownHead conId payload.length ++ payload).length + 2 =
      (socketDownLine conId payload).length := by
    simp only [socketDownLine, List.length_append]
    rfl
  have hlines := readLines_line bufsz hinput hcrlf hcut []
  rw [hlength, List.append_nil, readLines, List.append_nil] at hlines
  have hline : lineCall sockets (socketDownLine conId payload, some recvUrc) =
      some (i, payload) := by
    simp [lineCall, recvUrc, hcall, hread]
  rw [recvCalls, hlines, ← socketDownLine, hurc]
  split_ifs
  · exact List.filterMap_cons_some hline
  · rfl

/-- The text before the first cut is no URC. -/
theorem recvCalls_cut {bufsz : Nat} {sockets : List Slot} {pre rest : List RxIn} {x : RxIn}
    (hpre : ∀ y ∈ pre, y.cuts = false) (hx : x.cuts = true)
    (hno : NoCrlf (pre.map (·.ch) ++ [x.ch])) :
    recvCalls bufsz sockets (pre ++ x :: rest) = recvCalls bufsz sockets rest := by
  have hcollect := readLines_collect bufsz (x :: rest) hpre []
    (hno.of_prefix (List.prefix_append _ _))
  rw [after_nil, List.nil_append, readLines_cut hx hno] at hcollect
  rw [recvCalls, hcollect, List.filterMap_append]
  split_ifs <;> rfl

/-- What stands before a character that is not in the header reaches behind the
header. -/
theorem exists_mid_of_notMem {head tail pre rest : Bytes} {c : UInt8}
    (h : pre ++ c :: rest = head ++ tail) (hc : c ∉ head) :
    ∃ mid, pre = head ++ mid ∧ mid ++ c :: rest = tail := by
  rcases List.append_eq_append_iff.mp h with ⟨mid, hmid, hrest⟩ | ⟨mid, hmid, hrest⟩
  · cases mid with
    | nil => exact ⟨[], by simpa using hmid.symm, by simpa using hrest⟩
    | cons y mid =>
      obtain ⟨rfl, -⟩ := List.cons.inj hrest
      exact absurd (hmid ▸ List.mem_append_right _ List.mem_cons_self) hc
  · exact ⟨mid, hmid, hrest.symm⟩

/-- A line that the end sign cuts is lost.  What stands behind the cut is too
short to hold the payload. -/
theorem recvCalls_of_cut {bufsz : Nat} {sockets : List Slot} {input : List RxIn}
    {conId : Nat} {payload : Bytes} (hpayload : CrlfAtEnd (payload ++ [13, 10]))
    (hinput : input.map (·.ch) = socketDownLine conId payload)
    (hsign : ∀ x ∈ input, x.endSign = 0 ∨ x.endSign = 62)
    (hcut : ∃ x ∈ input, x.cuts = true) :
    ∀ call ∈ recvCalls bufsz sockets input, call.2.length < payload.length := by
  have hline := crlfAtEnd_socketDownLine conId hpayload
  -- the first character that is the end sign
  obtain ⟨x, hfirst⟩ := Option.isSome_iff_exists.mp (List.find?_isSome.mpr hcut)
  obtain ⟨hx, pre, rest, rfl, hpre⟩ := List.find?_eq_some_iff_append.mp hfirst
  have hpreCut : ∀ y ∈ pre, y.cuts = false := by
    intro y hy
    simpa using hpre y hy
  have hch : x.ch = 62 := by
    rcases hsign x (by simp) with h | h <;> simp [RxIn.cuts, h] at hx
    exact hx
  -- it is in the payload, because the header has no such character
  have hhead : (62 : UInt8) ∉ socketDownHead conId payload.length :=
    notMem_socketDownHead (by decide) (by decide) (by decide) _ _
  rw [List.map_append, List.map_cons, hch] at hinput
  have hno : NoCrlf (pre.map (·.ch) ++ [62]) := by
    rw [← hinput, List.append_cons] at hline
    exact hline.noCrlf (by decide)
  rw [socketDownLine, List.append_assoc] at hinput
  obtain ⟨mid, -, hrest⟩ := exists_mid_of_notMem hinput hhead
  have hlen := congrArg List.length hrest
  simp only [List.length_append, List.length_cons, List.length_map, List.length_nil] at hlen
  intro call hcall
  rw [recvCalls_cut hpreCut hx (hch.symm ▸ hno)] at hcall
  have hshort := length_le_of_recvCalls hcall
  omega

/-! ## The result -/

/-- What `urc_recv_func` does with a line, and what becomes of a line on its way
to it.  The callback of the matching socket gets exactly the payload of a line
that is passed to `urc_recv_func`.  The line gets there, and nothing else does,
if it fits the line buffer and no `>` of it is read while the end sign is set.
For every other line of the table the range of the callback ends before the
CR LF. -/
theorem socket_down_exact_iff (sockets : List Slot) :
    (∀ (conId i : Nat) (payload : Bytes), (∀ sock ∈ sockets, sock.userData < 2 ^ 31) →
      aiwb2FindSocket sockets conId = some i → payload ≠ [] → payload.length < 2 ^ 31 →
      ∃ off, recvCall sockets (socketDownLine conId payload) = some ⟨i, off, payload.length⟩ ∧
        readAt (socketDownLine conId payload) off payload.length = payload) ∧
    (∀ (bufsz conId i : Nat) (payload : Bytes) (input : List RxIn),
      (∀ sock ∈ sockets, sock.userData < 2 ^ 31) → aiwb2FindSocket sockets conId = some i →
      payload ≠ [] → payload.length < 2 ^ 31 → CrlfAtEnd (payload ++ [13, 10]) →
      input.map (·.ch) = socketDownLine conId payload →
      (∀ x ∈ input, x.endSign = 0 ∨ x.endSign = 62) →
      (recvCalls bufsz sockets input = [(i, payload)] ↔
        (socketDownLine conId payload).length ≤ bufsz ∧
          ∀ x ∈ input, x.ch = 62 → x.endSign = 0)) ∧
    ∀ (line : Bytes) (u : Urc) (call : RecvCall), getUrcObj line = some u → u.kind = .recv →
      recvCall sockets line = some call →
      ∃ body, line = body ++ [13, 10] ∧ call.off + call.bfsz ≤ body.length := by
  refine ⟨?_, ?_, ?_⟩
  · intro conId i payload hint hfind hne hlen
    exact recvCall_socketDownLine hint hfind hne hlen
  · intro bufsz conId i payload input hint hfind hne hlen hpayload hinput hsign
    have hcuts : (∀ x ∈ input, x.ch = 62 → x.endSign = 0) ↔ ∀ x ∈ input, x.cuts = false := by
      refine forall₂_congr fun x hx => ?_
      rcases hsign x hx with h | h <;> simp [RxIn.cuts, h]
    rw [hcuts]
    by_cases hcut : ∀ x ∈ input, x.cuts = false
    · rw [recvCalls_of_noCut hint hfind hne hlen hpayload hinput hcut]
      split_ifs with hfits
      · exact iff_of_true rfl ⟨hfits, hcut⟩
      · exact iff_of_false (by simp) fun h => hfits h.1
    · have hcut' : ∃ x ∈ input, x.cuts = true := by simpa using hcut
      refine iff_of_false (fun h => ?_) fun h => hcut h.2
      have hshort := recvCalls_of_cut hpayload hinput hsign hcut' (i, payload)
        (by rw [h]; exact List.mem_singleton_self _)
      exact absurd hshort (lt_irrefl _)
  · intro line u call hurc _ hcall
    obtain ⟨body, rfl⟩ := crlf_of_getUrcObj hurc
    exact ⟨body, rfl, (recvCall_in_line hcall).2⟩

/-- One socket with ConID 1. -/
def oneSocket : List Slot := [⟨true, 1, .connect, .tcp, []⟩]

/-- A payload with a comma, a NUL, a CR and a `>` while there is no end sign, and
a line that declares more than it has. -/
theorem socket_down_exact_comma :
    (∃ off, recvCall oneSocket (socketDownLine 1 [97, 44, 0, 62, 13]) = some ⟨0, off, 5⟩ ∧
      readAt (socketDownLine 1 [97, 44, 0, 62, 13]) off 5 = [97, 44, 0, 62, 13]) ∧
    recvCalls 2048 oneSocket (rxText 0 (socketDownLine 1 [97, 44, 0, 62, 13])) =
      [(0, [97, 44, 0, 62, 13])] ∧
    ∃ body, ascii "+EVENT:SocketDown,1,-5,ab\r\n" = body ++ [13, 10] ∧ 23 + 2 ≤ body.length := by
  have hend : CrlfAtEnd ([97, 44, 0, 62, 13] ++ [13, 10]) := crlfAtEnd_of_no_lf (by decide)
  obtain ⟨hcall, hread, hother⟩ := socket_down_exact_iff oneSocket
  refine ⟨hcall 1 0 _ (by decide) (by decide) (by decide) (by decide), ?_, ?_⟩
  · have hexact := hread 2048 1 0 [97, 44, 0, 62, 13]
      (rxText 0 (socketDownLine 1 [97, 44, 0, 62, 13])) (by decide) (by decide) (by decide)
      (by decide) hend (by decide) (by decide)
    exact hexact.mpr ⟨by decide, by decide⟩
  · exact hother _ recvUrc ⟨0, 23, 2⟩ (by decide) rfl (by decide)

/-- A payload with a `>` that comes while `aiwb2_socket_send` waits for the
prompt: the line is cut in two, and neither part is a URC. -/
theorem socket_down_cut :
    aiwb2FindSocket oneSocket 1 = some 0 ∧
      ascii "+EVENT:SocketDown,1,3,a>b\r\n" = socketDownLine 1 (ascii "a>b") ∧
      recvCalls 2048 oneSocket (rxText 62 (ascii "+EVENT:SocketDown,1,3,a>b\r\n")) = [] := by
  decide +kernel

end Hc32Board.AiWb2
