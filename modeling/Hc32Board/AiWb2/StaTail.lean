import Hc32Board.AtClient.Exec
import Hc32Board.AiWb2.ModuleText

/-!
# The tail of the station information

`aiwb2_get_netdev_info` on a response to `AT+STAINFO?` with status 3, from the
characters of the serial device to the gateway, the IP and the MAC.

The function means to take the last field of the comma line for the gateway, the
one before it for the IP and the fourth from the end for the MAC.  This needs
more than the shape of the response.

* No line ends the response early with an error: the text `ERROR` in an SSID or
  a password does (`StaFails`).
* The comma line gets to the response: it is no event and there is room for it
  in the 512 bytes.  And it is not taken for one of the lines before it
  (`StaSeen`).
* It has at most twelve fields, or fields that read alike.
* The IP is not empty.  Otherwise the MAC is asked for with another command,
  and its reply replaces the one of the comma line (`MacTaken`).

`netdev_info_tail_iff` says that this is all.
-/

namespace Hc32Board.AiWb2

open Hc32Board.CodeLib
open Hc32Board.AtClient

/-! ## The response -/

def ssidLine (ssid : Bytes) : Bytes := ascii "SSID:" ++ ssid ++ [13]

def passwordLine (password : Bytes) : Bytes := ascii "Password:" ++ password ++ [13]

def commaLine (fields : List Bytes) : Bytes := List.intercalate [44] fields ++ [13]

/-- The lines of a response with status 3, as the response object keeps them. -/
def staLines (ssid password : Bytes) (fields : List Bytes) : List Bytes :=
  [ascii "+STAINFO:3\r", ssidLine ssid, passwordLine password, commaLine fields, ascii "OK\r"]

/-- The response, as the device sends it. -/
def staText (ssid password : Bytes) (fields : List Bytes) : Bytes :=
  (staLines ssid password fields).flatMap (· ++ [10])

/-- The size of the response object. -/
def netdevRespSize : Nat := 512

/-- A field of the response. -/
structure StaField (text : Bytes) : Prop where
  length_le : text.length ≤ 31
  isField : IsField text
  no_nul : (0 : UInt8) ∉ text

/-- The field with this number from the end. -/
def fromEnd (fields : List Bytes) (j : Nat) : Bytes := fields.getD (fields.length - j) []

/-- The texts are the last field, the one before it and, if it has a colon, the
fourth from the end. -/
def TakesTail (fields : List Bytes) (t : NetdevTexts) : Prop :=
  t.gateway = fromEnd fields 1 ∧ t.ip = fromEnd fields 2 ∧
    (58 ∈ fromEnd fields 4 → t.mac = fromEnd fields 4)

/-! ## The condition -/

/-- A line ends the response with an error.  A line that is longer than the line
buffer does not, and a comma line that begins with `OK` ends it well. -/
def StaFails (bufsz : Nat) (ssid password : Bytes) (fields : List Bytes) : Prop :=
  (heard bufsz (ssidLine ssid) = true ∧ errorLine (ssidLine ssid) = true) ∨
    (heard bufsz (passwordLine password) = true ∧ errorLine (passwordLine password) = true) ∨
    (heard bufsz (commaLine fields) = true ∧ okLine (commaLine fields) = false ∧
      errorLine (commaLine fields) = true)

instance (bufsz : Nat) (ssid password : Bytes) (fields : List Bytes) :
    Decidable (StaFails bufsz ssid password fields) :=
  inferInstanceAs (Decidable (_ ∨ _ ∨ _))

/-- The bytes of the response object in use behind a line, with its zero. -/
def usedAfter (used : Nat) (line : Bytes) : Nat :=
  if used + (line.length + 1) < netdevRespSize then used + (line.length + 1) else used

/-- The loop gets to see the comma line: it is not an event, there is room for it
behind the three lines before it, and it is not skipped. -/
structure StaSeen (ssid password : Bytes) (fields : List Bytes) : Prop where
  noEvent : getUrcObj (commaLine fields ++ [10]) = none
  room : usedAfter (usedAfter 12 (ssidLine ssid)) (passwordLine password) +
    ((commaLine fields).length + 1) < netdevRespSize
  notSkipped : ¬ Skipped (commaLine fields)

instance (ssid password : Bytes) (fields : List Bytes) :
    Decidable (StaSeen ssid password fields) :=
  decidable_of_iff (getUrcObj (commaLine fields ++ [10]) = none ∧
      usedAfter (usedAfter 12 (ssidLine ssid)) (passwordLine password) +
        ((commaLine fields).length + 1) < netdevRespSize ∧ ¬ Skipped (commaLine fields))
    ⟨fun h => ⟨h.1, h.2.1, h.2.2⟩, fun h => ⟨h.noEvent, h.room, h.notSkipped⟩⟩

/-- The value of a reply to `AT+CIPSTAMAC_DEF?`. -/
def macGiven (reply : Reply) : Option Bytes := reply.bind (kwValue · "+CIPSTAMAC_DEF:")

/-- The MAC is the fourth field from the end, if that has a colon.  Without an IP
a value of `AT+CIPSTAMAC_DEF?` replaces it, which has to fit the buffer. -/
def MacTaken (ssid password : Bytes) (fields : List Bytes) (mac : Reply) : Prop :=
  match if fromEnd fields 2 = [] then macGiven mac else none with
  | some text =>
    text.length < atAddrLen ∧ (58 ∈ fromEnd fields 4 → text = fromEnd fields 4)
  | none =>
    58 ∈ fromEnd fields 4 →
      StaSeen ssid password fields ∧
        (fields.length ≤ 12 ∨ fields.getD 8 [] = fromEnd fields 4)

/-- The gateway and the IP are the last two fields.  If the comma line is not
seen, the fields have to read like nothing. -/
def AddressesTaken (ssid password : Bytes) (fields : List Bytes) : Prop :=
  if StaSeen ssid password fields then
    fields.length ≤ 12 ∨
      fields.getD 11 [] = fromEnd fields 1 ∧ fields.getD 10 [] = fromEnd fields 2
  else fromEnd fields 1 = [] ∧ fromEnd fields 2 = []

/-- The condition on the response, and on the replies to the other commands. -/
def TailTaken (bufsz : Nat) (ssid password : Bytes) (fields : List Bytes)
    (mac dhcp dns : Reply) : Prop :=
  if StaFails bufsz ssid password fields then
    fromEnd fields 1 = [] ∧ fromEnd fields 2 = [] ∧ 58 ∉ fromEnd fields 4
  else
    AddressesTaken ssid password fields ∧ MacTaken ssid password fields mac ∧
      (DhcpGiven dhcp → DnsFits dns)

/-! ## The lines -/

theorem sscanf_stainfo {c : UInt8} (h0 : c ≠ 0) (hplus : c ≠ 43) (rest : Bytes) :
    sscanf (c :: rest) "+STAINFO:%d" = [] := by
  have hc : cstr (c :: rest) = c :: cstr rest := List.takeWhile_cons_of_pos (by simpa using h0)
  rw [sscanf, hc]
  exact if_neg hplus

/-- A line that is no event, does not begin with `OK` and sets no status. -/
structure Plain (line : Bytes) : Prop where
  noEvent : getUrcObj (line ++ [10]) = none
  notOk : okLine line = false
  noStatus : sscanf line "+STAINFO:%d" = []

/-- The first character tells. -/
theorem plain_of_head {c : UInt8} (h0 : c ≠ 0) (hplus : c ≠ 43) (ho : c ≠ 79) (rest : Bytes) :
    Plain (c :: rest) where
  noEvent := by
    rw [List.cons_append]
    exact getUrcObj_of_head hplus _
  notOk := by
    rw [okLine, Bool.eq_false_iff]
    intro hpre
    obtain ⟨tail, htail⟩ := List.isPrefixOf_iff_prefix.mp hpre
    exact ho (List.cons.inj htail).1.symm
  noStatus := sscanf_stainfo h0 hplus rest

theorem plain_ssidLine (ssid : Bytes) : Plain (ssidLine ssid) :=
  plain_of_head (by decide) (by decide) (by decide) _

theorem plain_passwordLine (password : Bytes) : Plain (passwordLine password) :=
  plain_of_head (by decide) (by decide) (by decide) _

theorem skipped_ssidLine (ssid : Bytes) : Skipped (ssidLine ssid) := by
  refine .inr ?_
  rw [ssidLine, isSsidOrPassword, List.append_assoc, cstr_append (by decide), Bool.or_eq_true]
  exact .inl (List.isPrefixOf_iff_prefix.mpr (List.prefix_append _ _))

theorem skipped_passwordLine (password : Bytes) : Skipped (passwordLine password) := by
  refine .inr ?_
  rw [passwordLine, isSsidOrPassword, List.append_assoc, cstr_append (by decide), Bool.or_eq_true]
  exact .inr (List.isPrefixOf_iff_prefix.mpr (List.prefix_append _ _))

theorem isInfoLine_of_skipped {line : Bytes} (h : Skipped line) : isInfoLine line = false := by
  rw [isInfoLine, decide_eq_true h]
  rfl

theorem mem_intercalate {fields : List Bytes} {c : UInt8}
    (h : c ∈ List.intercalate [44] fields) : c = 44 ∨ ∃ text ∈ fields, c ∈ text := by
  match fields with
  | [] => exact absurd h (by simp)
  | [text] =>
    rw [List.intercalate_singleton] at h
    exact .inr ⟨text, List.mem_cons_self, h⟩
  | text :: next :: fields =>
    rw [List.intercalate_cons_cons, List.mem_append, List.mem_append] at h
    rcases h with (h | h) | h
    · exact .inr ⟨text, List.mem_cons_self, h⟩
    · exact .inl (List.mem_singleton.mp h)
    · rcases mem_intercalate h with h | ⟨t, ht, hc⟩
      · exact .inl h
      · exact .inr ⟨t, List.mem_cons_of_mem text ht, hc⟩

section Fields

variable {fields : List Bytes} (hfields : ∀ text ∈ fields, StaField text)
include hfields

theorem isValue_intercalate : IsValue (List.intercalate [44] fields) := by
  intro c hc
  rcases mem_intercalate hc with rfl | ⟨text, htext, hc⟩
  · decide
  · have hend := (hfields text htext).isField c hc
    simp only [isFieldEnd, Bool.or_eq_false_iff, beq_eq_false_iff_ne] at hend
    exact ⟨fun h0 => (hfields text htext).no_nul (h0 ▸ hc), hend.1.2, hend.2⟩

/-- The fields of the comma line are the fields it was made of. -/
theorem fieldsOf_commaLine (hne : fields ≠ []) : fieldsOf (commaLine fields) = fields := by
  have hvalue := isValue_intercalate hfields
  have hcstr : cstr (commaLine fields) = commaLine fields :=
    cstr_eq_self (isRespLine_value hvalue).no_nul
  rw [fieldsOf, hcstr, commaLine, upTo_append]
  · refine List.splitOn_intercalate 44 (fun text htext hc => ?_) hne
    have hend := (hfields text htext).isField 44 hc
    exact absurd hend (by decide)
  · intro c hc
    simp [(hvalue c hc).2.1, (hvalue c hc).2.2]
  · intro c hc
    obtain rfl := Option.some.inj hc
    decide

theorem isInfoLine_commaLine (hk : 6 ≤ fields.length) :
    isInfoLine (commaLine fields) = true ↔ ¬ Skipped (commaLine fields) := by
  have hne : fields ≠ [] := List.ne_nil_of_length_pos (by omega)
  rw [isInfoLine, fieldsOf_commaLine hfields hne, Bool.and_eq_true, Bool.not_eq_true',
    decide_eq_false_iff_not, decide_eq_true_eq]
  exact and_iff_left hk

theorem isRespLine_staLines {ssid password : Bytes} (hssid : IsValue ssid)
    (hpassword : IsValue password) :
    ∀ line ∈ staLines ssid password fields, IsRespLine line := by
  have hstatus : IsValue (ascii "+STAINFO:3") := by unfold IsValue; decide +kernel
  have hkey1 : IsValue (ascii "SSID:") := by unfold IsValue; decide +kernel
  have hkey2 : IsValue (ascii "Password:") := by unfold IsValue; decide +kernel
  have hok : IsValue (ascii "OK") := by unfold IsValue; decide +kernel
  simp only [staLines, List.forall_mem_cons, List.not_mem_nil, false_imp_iff, implies_true,
    and_true]
  exact ⟨isRespLine_value hstatus, isRespLine_value (isValue_append hkey1 hssid),
    isRespLine_value (isValue_append hkey2 hpassword),
    isRespLine_value (isValue_intercalate hfields),
    isRespLine_value hok⟩

end Fields

/-! ## The reply -/

section Reply

variable {bufsz : Nat}

theorem length_respBytes_hold (held : List Bytes) (line : Bytes) :
    (respBytes (hold netdevRespSize held line)).length =
      usedAfter (respBytes held).length line := by
  rw [hold, usedAfter]
  split_ifs
  · rw [respBytes_append, respBytes_singleton, List.length_append, List.length_append,
      List.length_singleton]
  · rfl

/-- `OK`. -/
theorem answerLines_ok (hbufsz : netdevRespSize ≤ bufsz) (held : List Bytes) :
    answerLines netdevRespSize held ([ascii "OK\r"].filter (heard bufsz)) =
      some (hold netdevRespSize held (ascii "OK\r")) := by
  have hheard : heard bufsz (ascii "OK\r") = true := by
    rw [heard, Bool.and_eq_true, decide_eq_true_eq]
    exact ⟨le_trans (by decide) hbufsz, by decide⟩
  rw [List.filter_cons_of_pos hheard]
  rfl

end Reply

/-- The lines of the response before the comma line. -/
def heldBefore (ssid password : Bytes) : List Bytes :=
  hold netdevRespSize (hold netdevRespSize [ascii "+STAINFO:3\r"] (ssidLine ssid))
    (passwordLine password)

theorem foldl_statusAfter_hold {size : Nat} {held : List Bytes} {line : Bytes}
    (h : sscanf line "+STAINFO:%d" = []) (status : Int) :
    (hold size held line).foldl statusAfter status = held.foldl statusAfter status := by
  have hafter : ∀ s, statusAfter s line = s := fun s => by rw [statusAfter, h]; rfl
  unfold hold
  split_ifs
  · rw [List.foldl_append, List.foldl_cons, List.foldl_nil, hafter]
  · rfl

theorem heldBefore_spec (ssid password : Bytes) :
    (∀ line ∈ heldBefore ssid password, isInfoLine line = false) ∧
      (heldBefore ssid password).foldl statusAfter 0 = 3 ∧
      (respBytes (heldBefore ssid password)).length =
        usedAfter (usedAfter 12 (ssidLine ssid)) (passwordLine password) := by
  refine ⟨fun line hline => ?_, ?_, ?_⟩
  · rcases mem_hold hline with hline | rfl
    · rcases mem_hold hline with hline | rfl
      · rw [List.mem_singleton.mp hline]
        decide
      · exact isInfoLine_of_skipped (skipped_ssidLine ssid)
    · exact isInfoLine_of_skipped (skipped_passwordLine password)
  · rw [heldBefore, foldl_statusAfter_hold (plain_passwordLine password).noStatus,
      foldl_statusAfter_hold (plain_ssidLine ssid).noStatus]
    decide
  · rw [heldBefore, length_respBytes_hold, length_respBytes_hold]
    rfl

section Response

variable {bufsz : Nat} {ssid password : Bytes} {fields : List Bytes}

theorem answerLines_plain (hbufsz : netdevRespSize ≤ bufsz) {line : Bytes} (hline : Plain line)
    (herror : ¬ (heard bufsz line = true ∧ errorLine line = true)) (held lines : List Bytes) :
    answerLines netdevRespSize held ((line :: lines).filter (heard bufsz)) =
      answerLines netdevRespSize (hold netdevRespSize held line) (lines.filter (heard bufsz)) :=
  answerLines_goes_on hbufsz hline.noEvent hline.notOk herror held lines

/-- The first line is held. -/
theorem answerLines_status (hbufsz : netdevRespSize ≤ bufsz) (lines : List Bytes) :
    answerLines netdevRespSize [] ((ascii "+STAINFO:3\r" :: lines).filter (heard bufsz)) =
      answerLines netdevRespSize [ascii "+STAINFO:3\r"] (lines.filter (heard bufsz)) :=
  answerLines_goes_on hbufsz (by decide) (by decide) (fun h => absurd h.2 (by decide)) [] lines

theorem exec_staText (hssid : IsValue ssid) (hpassword : IsValue password)
    (hfields : ∀ text ∈ fields, StaField text) (hbufsz : netdevRespSize ≤ bufsz) :
    atObjExecCmd bufsz netdevRespSize (staText ssid password fields) =
      answerLines netdevRespSize [ascii "+STAINFO:3\r"]
        ([ssidLine ssid, passwordLine password, commaLine fields, ascii "OK\r"].filter
          (heard bufsz)) := by
  rw [staText, exec_eq bufsz netdevRespSize (isRespLine_staLines hfields hssid hpassword),
    staLines, answerLines_status hbufsz]

/-- The command fails if one of the lines is an error. -/
theorem exec_fails (hssid : IsValue ssid) (hpassword : IsValue password)
    (hfields : ∀ text ∈ fields, StaField text) (hbufsz : netdevRespSize ≤ bufsz)
    (h : StaFails bufsz ssid password fields) :
    atObjExecCmd bufsz netdevRespSize (staText ssid password fields) = none := by
  rw [exec_staText hssid hpassword hfields hbufsz]
  by_cases h1 : heard bufsz (ssidLine ssid) = true ∧ errorLine (ssidLine ssid) = true
  · exact answerLines_fails (plain_ssidLine ssid).notOk h1 _ _
  rw [answerLines_plain hbufsz (plain_ssidLine ssid) h1]
  by_cases h2 : heard bufsz (passwordLine password) = true ∧
      errorLine (passwordLine password) = true
  · exact answerLines_fails (plain_passwordLine password).notOk h2 _ _
  rw [answerLines_plain hbufsz (plain_passwordLine password) h2]
  obtain ⟨hheard, hok, herror⟩ := (h.resolve_left h1).resolve_left h2
  exact answerLines_fails hok ⟨hheard, herror⟩ _ _

/-- Nothing is taken from lines without the information. -/
theorem staInfo_unseen {lines : List Bytes} (h : ∀ line ∈ lines, isInfoLine line = false) :
    staInfo lines = some ⟨[], [], []⟩ :=
  staInfo_of_find_none (List.find?_eq_none.mpr fun line hline => by simp [h line hline])

/-- The texts are taken from the comma line, if it is held. -/
theorem staInfo_seen (hfields : ∀ text ∈ fields, StaField text) (hk : 6 ≤ fields.length)
    (hskip : ¬ Skipped (commaLine fields)) (rest : List Bytes) :
    staInfo (heldBefore ssid password ++ commaLine fields :: rest) = some (staTaken fields) := by
  obtain ⟨hother, hstatus, -⟩ := heldBefore_spec ssid password
  have hinfo := (isInfoLine_commaLine hfields hk).mpr hskip
  have hfind : (heldBefore ssid password ++ commaLine fields :: rest).find? isInfoLine =
      some (commaLine fields) := by
    rw [List.find?_append, List.find?_eq_none.mpr fun line hline => by simp [hother line hline],
      Option.none_or]
    exact List.find?_cons_of_pos hinfo
  have hbefore : staStatus (heldBefore ssid password ++ commaLine fields :: rest) = 3 := by
    rw [staStatus, List.takeWhile_append_of_pos fun line hline => by simp [hother line hline],
      List.takeWhile_cons_of_neg (by simp [hinfo]), List.append_nil, hstatus]
  rw [staInfo_of_find_some hfind, if_pos hbefore,
    fieldsOf_commaLine hfields (List.ne_nil_of_length_pos (by omega))]

/-- The lines of the response up to the comma line.  The comma line is among them
if it is handled and there is room for it. -/
def heldComma (bufsz : Nat) (ssid password : Bytes) (fields : List Bytes) : List Bytes :=
  if heard bufsz (commaLine fields) then
    hold netdevRespSize (heldBefore ssid password) (commaLine fields)
  else heldBefore ssid password

/-- The last line of the response is the comma line if it begins with `OK`, and
`OK` otherwise. -/
theorem answerLines_comma (hbufsz : netdevRespSize ≤ bufsz)
    (herror : ¬ (heard bufsz (commaLine fields) = true ∧ okLine (commaLine fields) = false ∧
      errorLine (commaLine fields) = true)) :
    ∃ lines,
      answerLines netdevRespSize (heldBefore ssid password)
          ([commaLine fields, ascii "OK\r"].filter (heard bufsz)) = some lines ∧
        (lines = heldComma bufsz ssid password fields ∨
          lines = hold netdevRespSize (heldComma bufsz ssid password fields) (ascii "OK\r")) := by
  unfold heldComma
  cases hheard : heard bufsz (commaLine fields) with
  | false =>
    rw [List.filter_cons_of_neg (by simp [hheard]), answerLines_ok hbufsz]
    exact ⟨_, rfl, .inr rfl⟩
  | true =>
    rw [List.filter_cons_of_pos hheard, answerLines]
    cases hok : okLine (commaLine fields) with
    | true => exact ⟨_, if_pos rfl, .inl rfl⟩
    | false =>
      rw [if_neg Bool.false_ne_true, if_neg fun h => herror ⟨hheard, hok, h⟩,
        answerLines_ok hbufsz]
      exact ⟨_, rfl, .inr rfl⟩

theorem heldComma_of_seen (hbufsz : netdevRespSize ≤ bufsz) (h : StaSeen ssid password fields) :
    heldComma bufsz ssid password fields = heldBefore ssid password ++ [commaLine fields] := by
  have hroom := h.room
  rw [← (heldBefore_spec ssid password).2.2] at hroom
  have hheard : heard bufsz (commaLine fields) = true := by
    rw [heard, h.noEvent, Bool.and_eq_true, decide_eq_true_eq]
    exact ⟨by omega, rfl⟩
  rw [heldComma, if_pos hheard, hold, if_pos hroom]

theorem isInfoLine_of_unseen (bufsz : Nat) (hfields : ∀ text ∈ fields, StaField text)
    (hk : 6 ≤ fields.length) (h : ¬ StaSeen ssid password fields) :
    ∀ line ∈ heldComma bufsz ssid password fields, isInfoLine line = false := by
  obtain ⟨hother, -, hused⟩ := heldBefore_spec ssid password
  intro line hline
  unfold heldComma hold at hline
  split_ifs at hline with hheard hroom
  · rcases List.mem_append.mp hline with hline | hline
    · exact hother line hline
    · -- it is an event, or it is skipped
      rw [List.mem_singleton.mp hline, Bool.eq_false_iff]
      intro hinfo
      rw [hused] at hroom
      rw [heard, Bool.and_eq_true, Option.isNone_iff_eq_none] at hheard
      exact h ⟨hheard.2, hroom, (isInfoLine_commaLine hfields hk).mp hinfo⟩
  · exact hother line hline
  · exact hother line hline

/-- The texts of `AT+STAINFO?`.  Nothing is taken if the comma line is not seen. -/
def staTexts (ssid password : Bytes) (fields : List Bytes) : StaTexts :=
  if StaSeen ssid password fields then staTaken fields else ⟨[], [], []⟩

/-- What is taken if the command does not fail. -/
theorem exec_staInfo (hssid : IsValue ssid) (hpassword : IsValue password)
    (hfields : ∀ text ∈ fields, StaField text) (hk : 6 ≤ fields.length)
    (hbufsz : netdevRespSize ≤ bufsz) (h : ¬ StaFails bufsz ssid password fields) :
    ∃ lines, atObjExecCmd bufsz netdevRespSize (staText ssid password fields) = some lines ∧
      staInfo lines = some (staTexts ssid password fields) := by
  obtain ⟨h1, h2, h3⟩ : _ ∧ _ ∧ _ := by simpa only [StaFails, not_or] using h
  rw [exec_staText hssid hpassword hfields hbufsz,
    answerLines_plain hbufsz (plain_ssidLine ssid) h1,
    answerLines_plain hbufsz (plain_passwordLine password) h2]
  obtain ⟨lines, hanswer, hlines⟩ := answerLines_comma hbufsz h3
  refine ⟨lines, hanswer, ?_⟩
  unfold staTexts
  split_ifs with hseen
  · rw [heldComma_of_seen hbufsz hseen] at hlines
    obtain ⟨rest, rfl⟩ : ∃ rest, lines = heldBefore ssid password ++ commaLine fields :: rest := by
      rcases hlines with rfl | rfl
      · exact ⟨[], rfl⟩
      · unfold hold
        split_ifs
        · exact ⟨[ascii "OK\r"], List.append_assoc ..⟩
        · exact ⟨[], rfl⟩
    exact staInfo_seen hfields hk hseen.notSkipped rest
  · have hother := isInfoLine_of_unseen bufsz hfields hk hseen
    refine staInfo_unseen fun line hline => ?_
    rcases hlines with rfl | rfl
    · exact hother line hline
    · rcases mem_hold hline with hline | rfl
      · exact hother line hline
      · decide

end Response

/-! ## The fields that are taken -/

section Taken

variable {fields : List Bytes} (hfields : ∀ text ∈ fields, StaField text)
include hfields

/-- A field of the response is not cut. -/
theorem take_getD (i : Nat) : (fields.getD i []).take 31 = fields.getD i [] := by
  refine List.take_of_length_le ?_
  rcases Nat.lt_or_ge i fields.length with hi | hi
  · rw [List.getD_eq_getElem _ _ hi]
    exact (hfields _ (List.getElem_mem hi)).length_le
  · rw [List.getD_eq_default _ _ hi]
    exact Nat.zero_le _

theorem staTaken_eq : staTaken fields =
    ⟨fields.getD (min 12 fields.length - 1) [], fields.getD (min 12 fields.length - 2) [],
      if 58 ∈ fields.getD (min 12 fields.length - 4) [] then
        fields.getD (min 12 fields.length - 4) [] else []⟩ := by
  rw [staTaken, staInfoFieldMax]
  simp only [take_getD hfields]

/-- Of at most twelve fields the last ones are counted from the end, and of more
fields the twelfth is taken for the last one. -/
theorem staTaken_addresses_iff :
    (staTaken fields).gateway = fromEnd fields 1 ∧ (staTaken fields).ip = fromEnd fields 2 ↔
      fields.length ≤ 12 ∨
        fields.getD 11 [] = fromEnd fields 1 ∧ fields.getD 10 [] = fromEnd fields 2 := by
  rw [staTaken_eq hfields]
  rcases Nat.lt_or_ge 12 fields.length with hgt | hle
  · rw [min_eq_left hgt.le, or_iff_right (Nat.not_le.mpr hgt)]
  · rw [min_eq_right hle]
    exact iff_of_true ⟨rfl, rfl⟩ (.inl hle)

theorem staTaken_mac_iff (hcolon : 58 ∈ fromEnd fields 4) :
    (staTaken fields).mac = fromEnd fields 4 ↔
      fields.length ≤ 12 ∨ fields.getD 8 [] = fromEnd fields 4 := by
  rw [staTaken_eq hfields]
  rcases Nat.lt_or_ge 12 fields.length with hgt | hle
  · rw [min_eq_left hgt.le, or_iff_right (Nat.not_le.mpr hgt)]
    constructor
    · intro heq
      by_cases hmem : 58 ∈ fields.getD 8 []
      · exact (if_pos hmem).symm.trans heq
      · have hnil : [] = fromEnd fields 4 := (if_neg hmem).symm.trans heq
        rw [← hnil] at hcolon
        exact absurd hcolon List.not_mem_nil
    · intro heq
      exact (if_pos (heq ▸ hcolon)).trans heq
  · rw [min_eq_right hle]
    exact iff_of_true (if_pos hcolon) (.inl hle)

end Taken

/-! ## The function -/

theorem cipStaMac_eq (reply : Reply) (mac : Bytes) :
    cipStaMac reply mac =
      match macGiven reply with
      | some text => if text.length < atAddrLen then some text else none
      | none => some mac := by
  unfold cipStaMac macGiven
  cases reply with
  | none => rfl
  | some lines =>
    rw [Option.bind_some]
    dsimp only
    cases kwValue lines "+CIPSTAMAC_DEF:" <;> rfl

/-- The commands behind `AT+STAINFO?` and the MAC leave the texts alone. -/
theorem wsDhcp_keeps {r : NetdevReplies} {t t' : NetdevTexts} (h : wsDhcp r t = some t') :
    t'.gateway = t.gateway ∧ t'.ip = t.ip ∧ t'.mac = t.mac := by
  unfold wsDhcp at h
  split at h
  · obtain rfl := Option.some.inj h
    exact ⟨rfl, rfl, rfl⟩
  · split at h
    · obtain rfl := Option.some.inj h
      exact ⟨rfl, rfl, rfl⟩
    · unfold wDns at h
      split at h
      · obtain rfl := Option.some.inj h
        exact ⟨rfl, rfl, rfl⟩
      · split at h
        · obtain rfl := Option.some.inj h
          exact ⟨rfl, rfl, rfl⟩
        · split_ifs at h
          obtain rfl := Option.some.inj h
          exact ⟨rfl, rfl, rfl⟩

theorem wsDhcp_tail_iff (r : NetdevReplies) {t : NetdevTexts} (ht : t.Fit) (fields : List Bytes) :
    (∃ t', wsDhcp r t = some t' ∧ TakesTail fields t') ↔
      TakesTail fields t ∧ (DhcpGiven r.wsDhcp → DnsFits r.wDns) := by
  constructor
  · rintro ⟨t', h, htail⟩
    obtain ⟨hgateway, hip, hmac⟩ := wsDhcp_keeps h
    refine ⟨by rwa [TakesTail, hgateway, hip, hmac] at htail, ?_⟩
    by_contra hfit
    rw [wsDhcp_of_not_fits hfit] at h
    exact absurd h (by simp)
  · rintro ⟨htail, hfit⟩
    obtain ⟨t', h, -⟩ := (wsDhcp_fits_iff r ht).mpr hfit
    obtain ⟨hgateway, hip, hmac⟩ := wsDhcp_keeps h
    exact ⟨t', h, by rwa [TakesTail, hgateway, hip, hmac]⟩

section Function

variable {ssid password : Bytes} {fields : List Bytes}

theorem staTexts_length (ssid password : Bytes) (fields : List Bytes) :
    (staTexts ssid password fields).gateway.length < atAddrLen ∧
      (staTexts ssid password fields).ip.length < atAddrLen ∧
      (staTexts ssid password fields).mac.length < atAddrLen := by
  unfold staTexts
  split_ifs
  · exact staTaken_length fields
  · decide

theorem addressesTaken_iff (hfields : ∀ text ∈ fields, StaField text) :
    AddressesTaken ssid password fields ↔
      (staTexts ssid password fields).gateway = fromEnd fields 1 ∧
        (staTexts ssid password fields).ip = fromEnd fields 2 := by
  unfold AddressesTaken staTexts
  split_ifs
  · exact (staTaken_addresses_iff hfields).symm
  · exact and_congr eq_comm eq_comm

/-- Without a reply to `AT+CIPSTAMAC_DEF?` the MAC is that of the comma line. -/
theorem staTexts_mac_iff (ssid password : Bytes) (hfields : ∀ text ∈ fields, StaField text) :
    (58 ∈ fromEnd fields 4 → (staTexts ssid password fields).mac = fromEnd fields 4) ↔
      (58 ∈ fromEnd fields 4 → StaSeen ssid password fields ∧
        (fields.length ≤ 12 ∨ fields.getD 8 [] = fromEnd fields 4)) := by
  refine imp_congr_right fun hcolon => ?_
  unfold staTexts
  split_ifs with hseen
  · rw [staTaken_mac_iff hfields hcolon, and_iff_right hseen]
  · refine iff_of_false (fun hnil => ?_) (fun h => hseen h.1)
    rw [← hnil] at hcolon
    exact absurd hcolon List.not_mem_nil

/-- `mac` before `AT+WSDHCP?`. -/
def staMac (t : StaTexts) (mac : Reply) : Option Bytes :=
  if t.ip = [] then cipStaMac mac t.mac else some t.mac

theorem macTaken_iff (hfields : ∀ text ∈ fields, StaField text)
    (hip : (staTexts ssid password fields).ip = fromEnd fields 2) (mac : Reply) :
    MacTaken ssid password fields mac ↔
      ∃ text, staMac (staTexts ssid password fields) mac = some text ∧
        (58 ∈ fromEnd fields 4 → text = fromEnd fields 4) := by
  have hkept := staTexts_mac_iff ssid password hfields
  rw [MacTaken, staMac, hip]
  by_cases hask : fromEnd fields 2 = []
  · rw [if_pos hask, if_pos hask, cipStaMac_eq]
    cases macGiven mac with
    | none => simp [hkept]
    | some text =>
      dsimp only
      split_ifs with hfit
      · simp [hfit]
      · simp [hfit]
  · rw [if_neg hask, if_neg hask]
    simp [hkept]

theorem staMac_length (mac : Reply) {text : Bytes}
    (h : staMac (staTexts ssid password fields) mac = some text) : text.length < atAddrLen := by
  have hmac := (staTexts_length ssid password fields).2.2
  rw [staMac, cipStaMac_eq] at h
  split_ifs at h
  · split at h
    · split_ifs at h with hfit
      exact Option.some.inj h ▸ hfit
    · exact Option.some.inj h ▸ hmac
  · exact Option.some.inj h ▸ hmac

/-- What is taken if the command does not fail. -/
theorem info_tail_iff (hfields : ∀ text ∈ fields, StaField text) (r : NetdevReplies)
    {lines : List Bytes} (hreply : r.staInfo = some lines)
    (hlines : staInfo lines = some (staTexts ssid password fields)) :
    (∃ t, aiwb2GetNetdevInfo true r = some t ∧ TakesTail fields t) ↔
      AddressesTaken ssid password fields ∧ MacTaken ssid password fields r.cipStaMac ∧
        (DhcpGiven r.wsDhcp → DnsFits r.wDns) := by
  rw [aiwb2GetNetdevInfo, Bool.not_true, if_neg Bool.false_ne_true, hreply]
  dsimp only
  rw [hlines, Option.bind_some, ← staMac, addressesTaken_iff hfields]
  cases hmac : staMac (staTexts ssid password fields) r.cipStaMac with
  | none =>
    refine iff_of_false (by simp) fun h => ?_
    obtain ⟨text, htext, -⟩ := (macTaken_iff hfields h.1.2 _).mp h.2.1
    exact absurd (hmac.symm.trans htext) (by simp)
  | some mac =>
    obtain ⟨hgateway, hip, -⟩ := staTexts_length ssid password fields
    have hempty : ([] : Bytes).length < atAddrLen := by decide
    rw [Option.bind_some,
      wsDhcp_tail_iff r ⟨hgateway, hip, staMac_length _ hmac, hempty, hempty⟩, TakesTail,
      and_assoc, and_assoc, and_assoc]
    refine and_congr_right fun _ => and_congr_right fun hip => and_congr_left fun _ => ?_
    rw [macTaken_iff hfields hip, hmac]
    simp

end Function

/-- A failed command leaves the texts empty. -/
theorem takesTail_empty_iff (fields : List Bytes) :
    TakesTail fields {} ↔
      fromEnd fields 1 = [] ∧ fromEnd fields 2 = [] ∧ 58 ∉ fromEnd fields 4 := by
  refine and_congr eq_comm (and_congr eq_comm ⟨fun h hcolon => ?_, fun h hcolon => absurd hcolon h⟩)
  have hnil := h hcolon
  rw [← hnil] at hcolon
  exact absurd hcolon List.not_mem_nil

/-- Of a response with status 3 and six fields or more, `aiwb2_get_netdev_info`
takes the tail exactly under the condition above. -/
theorem netdev_info_tail_iff (bufsz : Nat) (hbufsz : netdevRespSize ≤ bufsz)
    (ssid password : Bytes) (hssid : IsValue ssid) (hpassword : IsValue password)
    (fields : List Bytes) (hk : 6 ≤ fields.length) (hfields : ∀ text ∈ fields, StaField text)
    (mac dhcp dns : Reply) :
    (∃ t,
      aiwb2GetNetdevInfo true
          ⟨atObjExecCmd bufsz netdevRespSize (staText ssid password fields), mac, dhcp, dns⟩ =
        some t ∧ TakesTail fields t) ↔
      TailTaken bufsz ssid password fields mac dhcp dns := by
  rw [TailTaken]
  split_ifs with hfails
  · rw [exec_fails hssid hpassword hfields hbufsz hfails, ← takesTail_empty_iff]
    exact ⟨fun ⟨t, ht, htail⟩ => Option.some.inj ht ▸ htail, fun h => ⟨_, rfl, h⟩⟩
  · obtain ⟨lines, hexec, hlines⟩ := exec_staInfo hssid hpassword hfields hk hbufsz hfails
    exact info_tail_iff hfields _ hexec hlines

/-- The response of the manual, with a Security text that has a comma in it. -/
def sevenFields : List Bytes :=
  [ascii "fc:d7:33:1e:ae:9d", ascii "WPA", ascii "WPA2", ascii "28:bb:ed:43:78:e0", ascii "6",
    ascii "192.168.1.7", ascii "192.168.1.1"]

theorem netdev_info_tail_comma :
    TailTaken 2048 (ascii "ap") (ascii "secret") sevenFields none none none ∧
      ∃ t,
        aiwb2GetNetdevInfo true
            ⟨atObjExecCmd 2048 netdevRespSize (staText (ascii "ap") (ascii "secret") sevenFields),
              none, none, none⟩ = some t ∧
          TakesTail sevenFields t := by
  have hseen : StaSeen (ascii "ap") (ascii "secret") sevenFields := by decide +kernel
  have htaken : TailTaken 2048 (ascii "ap") (ascii "secret") sevenFields none none none := by
    rw [TailTaken, if_neg (by decide +kernel), AddressesTaken, if_pos hseen]
    exact ⟨.inl (by decide), fun _ => ⟨hseen, .inl (by decide)⟩,
      fun ⟨lines, hlines, _⟩ => absurd hlines (by simp)⟩
  have hfields : ∀ text ∈ sevenFields, StaField text := by
    have h : ∀ text ∈ sevenFields, text.length ≤ 31 ∧ (∀ c ∈ text, isFieldEnd c = false) ∧
        (0 : UInt8) ∉ text := by decide +kernel
    exact fun text ht => ⟨(h text ht).1, (h text ht).2.1, (h text ht).2.2⟩
  refine ⟨htaken, (netdev_info_tail_iff 2048 (by decide) _ _ ?_ ?_ sevenFields (by decide) hfields
    none none none).mpr htaken⟩
  · unfold IsValue
    decide +kernel
  · unfold IsValue
    decide +kernel

/-- Nine fields before the last four: the line has thirteen. -/
def thirteenFields : List Bytes :=
  [ascii "fc:d7:33:1e:ae:9d", ascii "a", ascii "b", ascii "c", ascii "d", ascii "e", ascii "f",
    ascii "g", ascii "h", ascii "28:bb:ed:43:78:e0", ascii "6", ascii "192.168.1.7",
    ascii "192.168.1.1"]

/-- Of thirteen fields the twelfth is taken for the last one. -/
theorem netdev_info_thirteen_fields :
    aiwb2GetNetdevInfo true
        ⟨atObjExecCmd 2048 netdevRespSize (staText (ascii "ap") (ascii "secret") thirteenFields),
          none, none, none⟩ =
      some { gateway := ascii "192.168.1.7", ip := ascii "6" } ∧
    fromEnd thirteenFields 1 = ascii "192.168.1.1" ∧
    fromEnd thirteenFields 2 = ascii "192.168.1.7" ∧
    fromEnd thirteenFields 4 = ascii "28:bb:ed:43:78:e0" := by
  decide +kernel

end Hc32Board.AiWb2
