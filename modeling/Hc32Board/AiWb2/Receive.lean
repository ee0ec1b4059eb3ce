import Hc32Board.AiWb2.Slots
import Hc32Board.AtClient.Line

/-!
# Received data

The AT parser thread together with the socket calls of the application.

The parser reads every line into the one line buffer of the client.  The
payload of a `+EVENT:SocketDown` line is queued on its socket as a pointer into
that buffer, and `at_recvfrom` copies it from there later.  Two things follow.

* A payload is intact as long as the buffer is, that is, until the next call of
  `at_recv_readline`, which clears the buffer.
* A packet that is used up, closed or refused has its pointer passed to
  `rt_free`.  The pointer is not the start of a block of the heap, so an
  assertion of `rt_smem_free` fails and the call does not return.

`receive_intact` is the law that holds: if the parser goes on to the next line
only when no queued byte is unread, and no step frees a packet, then every call
returns and every socket hands out the payloads that were accepted for it.
`payload_overwritten` is a run without the first condition.
-/

namespace Hc32Board.AiWb2

open Hc32Board.CodeLib
open Hc32Board.AtSocket
open Hc32Board.AtClient

/-! ## The parser and the sockets -/

/-- Where `client_parser` is. -/
inductive Phase where
  /-- Before a call of `at_recv_readline`. -/
  | idle
  | reading (lastCh : UInt8) (isFull : Bool)
  /-- The call has returned a line. -/
  | ready (urc : Option Urc)
deriving DecidableEq, Repr

structure RxState where
  dev : List Channel
  /-- `recv_line_buf`, up to `recv_line_len`.  The rest of it is zero. -/
  line : Bytes
  phase : Phase
  endSign : UInt8
  /-- A thread is in `rt_assert_handler`, with the heap locked. -/
  fault : Bool

inductive RxAct where
  | socket (type : SockType) (ok : Bool)
  | call (i : Nat) (a : Call)
  | recvfrom (i len : Nat)
  /-- `at_obj_set_end_sign`. -/
  | setEndSign (ch : UInt8)
  /-- The parser calls `at_recv_readline`. -/
  | enter
  | rx (ch : UInt8)
  /-- The parser handles the line.  `waiting` says whether a response is
  expected, and `memOk` is the memory for a packet. -/
  | dispatch (waiting memOk : Bool)
deriving DecidableEq

/-- The handler of a URC.  The other URCs are only logged. -/
def urcFunc (d : List Channel) (line : Bytes) (memOk : Bool) : UrcKind → List Channel
  | .recv =>
    match urcRecvFunc line with
    | some r => step d (.socketDown r.conId r.off (readAt line r.off r.bfsz) memOk)
    | none => d
  | .close =>
    match urcCloseFunc line with
    | some n => step d (.socketDisconnect n)
    | none => d
  | _ => d

/-- One turn of `client_parser` on the line that was read.  For a response the
last byte of the line is set to zero. -/
def RxState.dispatch (s : RxState) (urc : Option Urc) (waiting memOk : Bool) : RxState :=
  match urc with
  | some u => { s with dev := urcFunc s.dev s.line memOk u.kind, phase := .idle }
  | none => { s with line := if waiting then s.line.dropLast ++ [0] else s.line, phase := .idle }

/-- A character for a call of `at_recv_readline`. -/
def RxState.rx (bufsz : Nat) (s : RxState) (lastCh : UInt8) (isFull : Bool) (ch : UInt8) :
    RxState :=
  match LineBuf.rxChar bufsz s.endSign ⟨s.line, lastCh, isFull⟩ ch with
  | .more b => { s with line := b.line, phase := .reading b.lastCh b.isFull }
  | .line bytes urc => { s with line := bytes, phase := .ready urc }
  | .full => { s with line := [], phase := .idle }

/-- What a step does if every call in it returns. -/
def RxState.act (bufsz : Nat) (s : RxState) : RxAct → RxState
  | .socket type ok => { s with dev := step s.dev (.socket type ok) }
  | .call i a => { s with dev := step s.dev (.call i a) }
  | .recvfrom i len => { s with dev := step s.dev (.recvfrom i s.line len) }
  | .setEndSign ch => { s with endSign := ch }
  | .enter => if s.phase = .idle then { s with line := [], phase := .reading 0 false } else s
  | .rx ch =>
    match s.phase with
    | .reading lastCh isFull => s.rx bufsz lastCh isFull ch
    | _ => s
  | .dispatch waiting memOk =>
    match s.phase with
    | .ready urc => s.dispatch urc waiting memOk
    | _ => s

/-- The pointers that a URC handler passes to `rt_free`. -/
def urcFrees (d : List Channel) (line : Bytes) (memOk : Bool) : UrcKind → List Nat
  | .recv =>
    match urcRecvFunc line with
    | some r =>
      match (aiwb2FindSocket (sockets d) r.conId).bind (d[·]?) with
      | some c => (atRecvNoticeCb c.sock r.off r.bfsz memOk).freed
      | none => []
    | none => []
  | _ => []

/-- The pointers into the line buffer that a step passes to `rt_free`. -/
def RxState.frees (s : RxState) : RxAct → List Nat
  | .call i a => (s.dev[i]?.map (·.frees a)).getD []
  | .recvfrom i len => (s.dev[i]?.map fun c => (atRecvfrom s.line c.sock len).freed).getD []
  | .dispatch _ memOk =>
    match s.phase with
    | .ready (some u) => urcFrees s.dev s.line memOk u.kind
    | _ => []
  | _ => []

/-- One step.  `rt_smem_free` asserts that a pointer is aligned and that the
header of a block stands before it.  The line buffer is one block, and a payload
is further in: in the place of the header there is a part of the line.
`rt_assert_handler` loops, so nothing goes on from there. -/
def rxStep (bufsz : Nat) (s : RxState) (a : RxAct) : RxState :=
  if s.fault then s
  else if s.frees a = [] then s.act bufsz a
  else { s with fault := true }

def rxStart (socketNum : Nat) : RxState := ⟨start socketNum, [], .idle, 0, false⟩

/-! ## What a socket shows -/

/-- What was handed out and what is still queued are the accepted payloads. -/
def Intact (line : Bytes) (c : Channel) : Prop :=
  c.handed ++ queued line c.sock.recvpktList = c.accepted

/-- No packet of the socket has unread bytes. -/
def AllRead (c : Channel) : Prop := ∀ p ∈ c.sock.recvpktList, p.bfszIndex = p.bfszTotle

theorem intact_iff_of_allRead {c : Channel} (h : AllRead c) (line : Bytes) :
    Intact line c ↔ c.handed = c.accepted := by
  rw [Intact, (queued_eq_nil_iff line _).mpr h, List.append_nil]

/-- A call other than a read leaves the data of the socket alone, or frees the
slot. -/
theorem call_data (c : Channel) (a : Call) :
    c.call a = .free ∨
      (c.call a).sock.recvpktList = c.sock.recvpktList ∧ (c.call a).accepted = c.accepted ∧
        (c.call a).handed = c.handed := by
  cases a <;> rw [Channel.call] <;> (try split_ifs) <;>
    first | exact .inl rfl | exact .inr ⟨rfl, rfl, rfl⟩

theorem recvfrom_data (c : Channel) (line : Bytes) (len : Nat) :
    (c.recvfrom line len).accepted = c.accepted ∧
      (c.recvfrom line len).handed ++ queued line (c.recvfrom line len).sock.recvpktList =
        c.handed ++ queued line c.sock.recvpktList := by
  rw [Channel.recvfrom, atRecvfrom]
  refine ⟨rfl, ?_⟩
  split_ifs
  · show (c.handed ++ _) ++ queued line _ = _
    rw [List.append_assoc, atRecvpktGet_append]
  · rw [List.append_nil]

/-- A payload that is in the line buffer when it is put shows there. -/
theorem Intact.recvNotice {line : Bytes} {c : Channel} (h : Intact line c) (off bfsz : Nat)
    (memOk : Bool) : Intact line (c.notice (.recv off (readAt line off bfsz) memOk)) := by
  rw [Channel.notice, atRecvNoticeCb_eq]
  split_ifs
  · show c.handed ++ queued line (c.sock.recvpktList ++ [_]) = c.accepted ++ _
    rw [length_readAt, queued_append, queued_fresh, ← List.append_assoc, h]
  · exact h

theorem Intact.closedNotice {line : Bytes} {c : Channel} (h : Intact line c) :
    Intact line (c.notice .closed) := by
  rw [Channel.notice, atClosedNoticeCb]
  split_ifs <;> exact h

/-! ## Runs -/

/-- The invariant: the data is intact, and there is no unread byte while the
parser works on a line. -/
def Sound (s : RxState) (c : Channel) : Prop := Intact s.line c ∧ (s.phase ≠ .idle → AllRead c)

abbrev AllSound (s : RxState) : Prop := AllSlots (fun _ c => Sound s c) s.dev

theorem sound_empty {s : RxState} {c : Channel} (hpkts : c.sock.recvpktList = [])
    (haccepted : c.accepted = []) (hhanded : c.handed = []) : Sound s c := by
  refine ⟨?_, fun _ p hp => ?_⟩
  · rw [Intact, hpkts, haccepted, hhanded]; rfl
  · rw [hpkts] at hp; exact absurd hp List.not_mem_nil

theorem Sound.call {s : RxState} {c : Channel} (h : Sound s c) (a : Call) :
    Sound s (c.call a) := by
  rcases call_data c a with hfree | hdata
  · rw [hfree]; exact sound_empty rfl rfl rfl
  · obtain ⟨hpkts, haccepted, hhanded⟩ := hdata
    rw [Sound, Intact, AllRead, hpkts, haccepted, hhanded]
    exact h

theorem Sound.recvfrom {s : RxState} {c : Channel} (h : Sound s c) (len : Nat) :
    Sound s (c.recvfrom s.line len) := by
  obtain ⟨haccepted, hdata⟩ := recvfrom_data c s.line len
  refine ⟨?_, fun hphase => ?_⟩
  · rw [Intact, haccepted, hdata]
    exact h.1
  · -- nothing was queued, so nothing is left
    have hnone := (queued_eq_nil_iff s.line _).mpr (h.2 hphase)
    rw [Channel.recvfrom, atRecvfrom] at *
    split_ifs
    · have hsplit := atRecvpktGet_append s.line c.sock.recvpktList len
      rw [hnone] at hsplit
      exact (queued_eq_nil_iff s.line _).mp (List.append_eq_nil_iff.mp hsplit).2
    · exact h.2 hphase

/-- Where nothing is unread, the line buffer may change. -/
theorem Sound.of_allRead {s : RxState} {c : Channel} (h : Sound s c) (hread : AllRead c)
    (t : RxState) : Sound t c :=
  ⟨(intact_iff_of_allRead hread t.line).mpr ((intact_iff_of_allRead hread s.line).mp h.1),
    fun _ => hread⟩

/-- No socket has unread bytes. -/
def NoUnread (d : List Channel) : Prop := AllSlots (fun _ c => AllRead c) d

instance (d : List Channel) : Decidable (NoUnread d) :=
  decidable_of_iff (∀ c ∈ d, ∀ p ∈ c.sock.recvpktList, p.bfszIndex = p.bfszTotle)
    ⟨fun h _ c hc => h c (List.mem_of_getElem? hc),
      fun h c hc => (List.mem_iff_getElem?.mp hc).elim fun i hi => h i c hi⟩

/-! ## The condition -/

/-- The parser goes on to the next line only when no queued byte is unread. -/
def WaitsForReaders (s : RxState) (a : RxAct) : Prop :=
  a = .enter → s.phase = .idle → NoUnread s.dev

instance (s : RxState) (a : RxAct) : Decidable (WaitsForReaders s a) :=
  inferInstanceAs (Decidable (a = .enter → s.phase = .idle → NoUnread s.dev))

/-- No step has to free a pointer into the line buffer.  A read ends inside the
first packet of its socket, or finds no packet.  A close finds no packet.  A
payload comes for a socket that takes it. -/
def FreesNothing (s : RxState) : RxAct → Prop
  | .recvfrom i len =>
    ∀ c, s.dev[i]? = some c → c.sock.reads len = true → StaysInFirst c.sock.recvpktList len
  | .call i a =>
    ∀ c, s.dev[i]? = some c → a = .closeEnd → c.busy = .closing → c.sock.recvpktList = []
  | .dispatch _ memOk =>
    ∀ u r i c, s.phase = .ready (some u) → u.kind = .recv → urcRecvFunc s.line = some r →
      aiwb2FindSocket (sockets s.dev) r.conId = some i → s.dev[i]? = some c →
        c.sock.accepts memOk = true
  | _ => True

theorem frees_recvfrom_iff (c : Channel) (line : Bytes) (len : Nat) :
    (atRecvfrom line c.sock len).freed = [] ↔
      (c.sock.reads len = true → StaysInFirst c.sock.recvpktList len) := by
  rw [atRecvfrom]
  split_ifs with hreads
  · rw [← atRecvpktGet_freed_iff line, forall_prop_of_true hreads]
  · exact iff_of_true rfl fun h => absurd h hreads

theorem frees_call_iff (c : Channel) (a : Call) :
    c.frees a = [] ↔ (a = .closeEnd → c.busy = .closing → c.sock.recvpktList = []) := by
  cases a with
  | closeEnd =>
    rw [Channel.frees, forall_prop_of_true rfl]
    split_ifs with hb
    · rw [forall_prop_of_true (beq_iff_eq.mp hb), freeSocketFrees, atRecvpktAllDelete,
        List.map_eq_nil_iff]
    · exact iff_of_true rfl fun h => absurd (beq_iff_eq.mpr h) hb
  | _ => exact iff_of_true rfl nofun

theorem frees_notice_iff (sock : Slot) (buff bfsz : Nat) (memOk : Bool) :
    (atRecvNoticeCb sock buff bfsz memOk).freed = [] ↔ sock.accepts memOk = true := by
  rw [atRecvNoticeCb_eq]
  split_ifs with haccepts
  · exact iff_of_true rfl haccepts
  · exact iff_of_false id haccepts

theorem urcFrees_iff (d : List Channel) (line : Bytes) (memOk : Bool) (kind : UrcKind) :
    urcFrees d line memOk kind = [] ↔
      ∀ r i c, kind = .recv → urcRecvFunc line = some r →
        aiwb2FindSocket (sockets d) r.conId = some i → d[i]? = some c →
          c.sock.accepts memOk = true := by
  cases kind with
  | recv =>
    rw [urcFrees]
    split
    · rename_i r hr
      split
      · rename_i c hc
        obtain ⟨i, hfind, hget⟩ := Option.bind_eq_some_iff.mp hc
        rw [frees_notice_iff]
        constructor
        · intro haccepts r' i' c' _ hr' hfind' hget'
          obtain rfl := Option.some.inj (hr.symm.trans hr')
          obtain rfl := Option.some.inj (hfind.symm.trans hfind')
          obtain rfl := Option.some.inj (hget.symm.trans hget')
          exact haccepts
        · intro h
          exact h r i c rfl hr hfind hget
      · rename_i hnone
        refine iff_of_true rfl fun r' i' c' _ hr' hfind' hget' => ?_
        obtain rfl := Option.some.inj (hr.symm.trans hr')
        rw [hfind', Option.bind_some, hget'] at hnone
        exact absurd hnone (by simp)
    · rename_i hnone
      exact iff_of_true rfl fun r' _ _ _ hr' => absurd (hnone.symm.trans hr') (by simp)
  | _ => exact iff_of_true rfl fun _ _ _ hkind => absurd hkind (by decide)

/-- The condition is exact: the steps that meet it are those that free
nothing. -/
theorem frees_eq_nil_iff (s : RxState) (a : RxAct) : s.frees a = [] ↔ FreesNothing s a := by
  cases a with
  | recvfrom i len =>
    rw [RxState.frees, FreesNothing]
    cases s.dev[i]? with
    | none => exact iff_of_true rfl fun c hc => absurd hc (by simp)
    | some c =>
      simp only [Option.map_some, Option.getD_some, Option.some.injEq, forall_eq']
      exact frees_recvfrom_iff c s.line len
  | call i a =>
    rw [RxState.frees, FreesNothing]
    cases s.dev[i]? with
    | none => exact iff_of_true rfl fun c hc => absurd hc (by simp)
    | some c =>
      simp only [Option.map_some, Option.getD_some, Option.some.injEq, forall_eq']
      exact frees_call_iff c a
  | dispatch waiting memOk =>
    rw [RxState.frees, FreesNothing]
    split
    · rename_i u hphase
      rw [urcFrees_iff]
      constructor
      · intro h u' r i c hphase'
        rw [hphase] at hphase'
        obtain rfl : u = u' := Option.some.inj (Phase.ready.inj hphase')
        exact h r i c
      · intro h r i c
        exact h u r i c hphase
    · rename_i hnot
      exact iff_of_true rfl fun u _ _ _ hphase => absurd hphase (hnot u)
  | _ => exact iff_of_true rfl trivial

instance (s : RxState) (a : RxAct) : Decidable (FreesNothing s a) :=
  decidable_of_iff (s.frees a = []) (frees_eq_nil_iff s a)

/-- What a step has to meet. -/
def KeepsPackets (s : RxState) (a : RxAct) : Prop := WaitsForReaders s a ∧ FreesNothing s a

instance (s : RxState) (a : RxAct) : Decidable (KeepsPackets s a) :=
  inferInstanceAs (Decidable (_ ∧ _))

/-- A step that frees nothing returns. -/
theorem rxStep_of_freesNothing {bufsz : Nat} {s : RxState} {a : RxAct} (hfault : s.fault = false)
    (hfrees : FreesNothing s a) : rxStep bufsz s a = s.act bufsz a := by
  rw [rxStep, hfault, if_neg Bool.false_ne_true, if_pos ((frees_eq_nil_iff s a).mpr hfrees)]

/-! ## The steps -/

theorem AllSound.of_noUnread {s t : RxState} (h : AllSound s) (hread : NoUnread s.dev)
    (hdev : t.dev = s.dev) : AllSound t := by
  intro i c hc
  rw [hdev] at hc
  exact (h i c hc).of_allRead (hread i c hc) t

theorem AllSound.noUnread {s : RxState} (h : AllSound s) (hphase : s.phase ≠ .idle) :
    NoUnread s.dev :=
  fun i c hc => (h i c hc).2 hphase

theorem AllSound.urcFunc {s : RxState} (h : AllSound s) (memOk : Bool) (kind : UrcKind) :
    AllSlots (fun _ c => Intact s.line c) (urcFunc s.dev s.line memOk kind) := by
  have hintact : AllSlots (fun _ c => Intact s.line c) s.dev := fun i c hc => (h i c hc).1
  cases kind with
  | recv =>
    unfold AiWb2.urcFunc
    dsimp only
    split
    · exact hintact.deliver _ _ fun _ _ hc => hc.recvNotice _ _ _
    · exact hintact
  | close =>
    unfold AiWb2.urcFunc
    dsimp only
    split
    · exact hintact.deliver _ _ fun _ _ hc => hc.closedNotice
    · exact hintact
  | _ => exact hintact

theorem AllSound.act {bufsz : Nat} {s : RxState} (h : AllSound s) (a : RxAct)
    (hwait : WaitsForReaders s a) : AllSound (s.act bufsz a) := by
  cases a with
  | socket type ok =>
    exact AllSlots.socket h type ok fun i => by
      cases ok <;> exact sound_empty rfl rfl rfl
  | call i a => exact AllSlots.modify h i fun _ hc => hc.call a
  | recvfrom i len => exact AllSlots.modify h i fun _ hc => hc.recvfrom len
  | setEndSign ch => exact h
  | enter =>
    rw [RxState.act]
    split_ifs with hidle
    · exact h.of_noUnread (hwait rfl hidle) rfl
    · exact h
  | rx ch =>
    rw [RxState.act]
    split
    · rename_i lastCh isFull hphase
      have hread := h.noUnread (by rw [hphase]; nofun)
      unfold RxState.rx
      split <;> exact h.of_noUnread hread rfl
    · exact h
  | dispatch waiting memOk =>
    rw [RxState.act]
    split
    · rename_i urc hphase
      have hread := h.noUnread (by rw [hphase]; nofun)
      cases urc with
      | none => exact h.of_noUnread hread rfl
      | some u => exact fun i c hc => ⟨h.urcFunc memOk u.kind i c hc, fun hp => absurd rfl hp⟩
    · exact h

theorem act_fault (bufsz : Nat) (s : RxState) (a : RxAct) :
    (s.act bufsz a).fault = s.fault := by
  cases a with
  | enter =>
    rw [RxState.act]
    split_ifs <;> rfl
  | rx ch =>
    rw [RxState.act]
    split
    · unfold RxState.rx
      split <;> rfl
    · rfl
  | dispatch waiting memOk =>
    rw [RxState.act]
    split
    · unfold RxState.dispatch
      split <;> rfl
    · rfl
  | _ => rfl

/-- No call has faulted, and the data of every socket is sound. -/
structure RxInv (s : RxState) : Prop where
  noFault : s.fault = false
  sound : AllSound s

theorem RxInv.step {bufsz : Nat} {s : RxState} (h : RxInv s) (a : RxAct)
    (hkeeps : KeepsPackets s a) : RxInv (rxStep bufsz s a) := by
  rw [rxStep_of_freesNothing h.noFault hkeeps.2]
  exact ⟨(act_fault bufsz s a).trans h.noFault, h.sound.act a hkeeps.1⟩

theorem rxInv_start (socketNum : Nat) : RxInv (rxStart socketNum) :=
  ⟨rfl, allSlots_start socketNum fun _ => sound_empty rfl rfl rfl⟩

/-- In a run in which the parser goes on to the next line only when no queued
byte is unread, and in which no step frees a packet, every call returns and
every socket hands out the payloads accepted for it, in their order: what was
handed out and what is queued are what was accepted. -/
theorem receive_intact (socketNum bufsz : Nat) (acts : List RxAct)
    (hkeeps : Along (rxStep bufsz) KeepsPackets (rxStart socketNum) acts) :
    (run (rxStep bufsz) (rxStart socketNum) acts).fault = false ∧
      ∀ (i : Nat) (c : Channel),
        (run (rxStep bufsz) (rxStart socketNum) acts).dev[i]? = some c →
          c.handed ++ queued (run (rxStep bufsz) (rxStart socketNum) acts).line
            c.sock.recvpktList = c.accepted ∧ c.handed <+: c.accepted := by
  have hinv : RxInv (run (rxStep bufsz) (rxStart socketNum) acts) :=
    run_invariant (fun _ a h hP => h.step a hP) acts _ (rxInv_start socketNum) hkeeps
  refine ⟨hinv.noFault, fun i c hc => ?_⟩
  have hintact := (hinv.sound i c hc).1
  exact ⟨hintact, ⟨_, hintact⟩⟩

/-- Slot 0 is connected with ConID 1. -/
def connectFirst : List RxAct :=
  [.socket .tcp true, .call 0 .connectBegin,
    .call 0 (.connectEnd ⟨true, some [ascii "connect success ConID=1\r"], none⟩),
    .call 0 .connectReturn]

/-- The parser reads a line and handles it. -/
def parseLine (line : String) : List RxAct :=
  .enter :: (ascii line).map .rx ++ [.dispatch false true]

/-- A payload arrives behind another line, and four of its five bytes are read
in two calls. -/
def readInPart : List RxAct :=
  connectFirst ++ parseLine "+EVENT:WIFI_GOT_IP\r\n" ++
    parseLine "+EVENT:SocketDown,1,5,hello\r\n" ++ [.recvfrom 0 3, .recvfrom 0 1]

theorem receive_intact_in_part :
    Along (rxStep 2048) KeepsPackets (rxStart 5) readInPart ∧
      (run (rxStep 2048) (rxStart 5) readInPart).fault = false ∧
      ∀ (i : Nat) (c : Channel), (run (rxStep 2048) (rxStart 5) readInPart).dev[i]? = some c →
        c.handed ++ queued (run (rxStep 2048) (rxStart 5) readInPart).line
          c.sock.recvpktList = c.accepted ∧ c.handed <+: c.accepted := by
  have hkeeps : Along (rxStep 2048) KeepsPackets (rxStart 5) readInPart := by decide +kernel
  exact ⟨hkeeps, receive_intact 5 2048 readInPart hkeeps⟩

/-- A read of the whole payload does not return. -/
example : (run (rxStep 2048) (rxStart 5)
    (connectFirst ++ parseLine "+EVENT:SocketDown,1,5,hello\r\n" ++ [.recvfrom 0 5])).fault =
      true := by
  decide +kernel

/-- Two payloads arrive before the reader asks for three bytes. -/
def readLate : List RxAct :=
  connectFirst ++ parseLine "+EVENT:SocketDown,1,5,hello\r\n" ++
    parseLine "+EVENT:SocketDown,1,5,world\r\n" ++ [.recvfrom 0 3]

/-- The reader gets the start of the second payload in the place of the
first. -/
theorem payload_overwritten :
    ((run (rxStep 2048) (rxStart 5) readLate).dev[0]?.map fun c => (c.accepted, c.handed)) =
        some (ascii "helloworld", ascii "wor") ∧
      ¬ ascii "wor" <+: ascii "helloworld" := by
  decide +kernel

end Hc32Board.AiWb2
