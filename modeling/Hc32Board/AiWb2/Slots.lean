import Hc32Board.AiWb2.Socket
import Hc32Board.CodeLib.Run

/-!
# The socket slots of the device

The socket calls of the application and the events of the module, as a
transition system over `device->sockets`.

* `connect` and `close` wait for the module, so each is two or three steps, and
  events and the calls on other slots come in between.  The calls on one socket
  follow each other.
* A `Channel` is a slot, the call in progress on it, and its history since it
  was allocated: whether a connect succeeded, the payloads accepted for it and
  the bytes handed to its reader.
* UDP sockets also connect inside `at_sendto` and `at_recvfrom`.  That is a
  `connect` followed by the call.
* `at_shutdown` has the body of `at_closesocket`.
* `Channel.frees` gives the pointers that the end of a close passes to
  `rt_free`.  The calls go on behind it here, as they do for pointers that the
  heap takes back.  `Receive` has the run that stops there.

`Owned` is the invariant: `user_data` is the index of an allocated slot, plus
one if it is connected.
-/

namespace Hc32Board.AiWb2

open Hc32Board.CodeLib
open Hc32Board.AtSocket

/-! ## One slot -/

/-- The call that is in progress on a slot. -/
inductive Busy where
  | idle
  /-- Inside `aiwb2_socket_connect`. -/
  | connecting
  /-- The driver has connected, and `at_connect` has not set the state. -/
  | returning
  /-- Inside `aiwb2_socket_close`. -/
  | closing
deriving DecidableEq, Repr

structure Channel where
  sock : Slot
  busy : Busy
  /-- A connect of this socket succeeded. -/
  connected : Bool
  /-- The payloads that were accepted for this socket, as they arrived. -/
  accepted : Bytes
  /-- The bytes that `at_recvfrom` handed out. -/
  handed : Bytes
deriving DecidableEq

def Channel.free : Channel := ⟨Slot.freed, .idle, false, [], []⟩

/-- A step of a call that changes one slot or sends commands for it. -/
inductive Call where
  | connectBegin
  | connectEnd (e : ConnectEnv)
  | connectReturn
  /-- `turns` is the number of commands that `aiwb2_socket_send` gets to. -/
  | sendto (size turns : Nat)
  /-- `respOk` is the memory for the response object. -/
  | closeBegin (respOk : Bool)
  | closeEnd
deriving DecidableEq

/-- An event that the driver hands to a slot. -/
inductive Notice where
  /-- The payload is at `off` in the line buffer.  `memOk` is the memory for the
  packet. -/
  | recv (off : Nat) (payload : Bytes) (memOk : Bool)
  | closed

/-- The application can start a call that changes the state of the socket. -/
def Channel.ready (c : Channel) : Bool := c.sock.magic && c.busy == .idle

/-- `at_closesocket` can be called: there is a descriptor for the slot. -/
def Channel.closable (c : Channel) : Bool := c.ready && c.sock.state != .none

def Channel.call (c : Channel) : Call → Channel
  | .connectBegin =>
    if c.ready && c.sock.state == .opened then { c with busy := .connecting } else c
  | .connectEnd e =>
    if c.busy == .connecting then
      if aiwb2SocketConnect c.sock e then
        { c with sock.userData := reservedConId c.sock, connected := true, busy := .returning }
      else { c with busy := .idle }
    else c
  | .connectReturn =>
    if c.busy == .returning then { c with sock.state := .connect, busy := .idle } else c
  | .sendto _ _ => c
  | .closeBegin _ =>
    if c.closable then { c with sock.state := .closed, busy := .closing } else c
  | .closeEnd => if c.busy == .closing then .free else c

/-- `at_recvfrom`, with the line buffer `mem`. -/
def Channel.recvfrom (c : Channel) (mem : Bytes) (len : Nat) : Channel :=
  let r := atRecvfrom mem c.sock len
  { c with sock := r.sock, handed := c.handed ++ r.bytes }

def Channel.notice (c : Channel) : Notice → Channel
  | .recv off payload memOk =>
    { c with
      sock := (atRecvNoticeCb c.sock off payload.length memOk).sock
      accepted := if c.sock.accepts memOk then c.accepted ++ payload else c.accepted }
  | .closed => { c with sock := atClosedNoticeCb c.sock }

/-- The commands that a step sends to the module. -/
def Channel.commands (c : Channel) : Call → List Command
  | .connectEnd e => if c.busy == .connecting then connectCommands c.sock e else []
  | .sendto size turns =>
    if c.sock.magic && sendAllowed c.sock then sendCommands c.sock.userData size 0 turns else []
  | .closeBegin respOk =>
    -- a socket that the remote side closed is freed without a command
    if c.closable && c.sock.state != .closed && respOk then [.socketDel c.sock.userData] else []
  | _ => []

/-- The pointers that a step passes to `rt_free`. -/
def Channel.frees (c : Channel) : Call → List Nat
  | .closeEnd => if c.busy == .closing then freeSocketFrees c.sock else []
  | _ => []

/-- What holds of slot `i` in every run. -/
structure Owned (i : Nat) (c : Channel) : Prop where
  free : c.sock.magic = false → c = .free
  userData : c.sock.magic = true → c.sock.userData = if c.connected then i + 1 else i
  connecting : c.busy = .connecting → c.sock.magic = true ∧ c.connected = false
  busy : c.busy = .returning → c.sock.magic = true
  opened : c.busy = .idle → c.sock.state = .opened → c.connected = false

theorem owned_free (i : Nat) : Owned i .free := by
  refine ⟨fun _ => rfl, ?_, ?_, ?_, ?_⟩ <;> simp [Channel.free, Slot.freed]

/-- A slot that `at_socket` has just taken.  Without `ok` the semaphore or the
lock of the socket could not be created. -/
def Channel.opened (i : Nat) (type : SockType) (ok : Bool) : Channel :=
  { Channel.free with
    sock := if ok then { Slot.allocated i with type, state := .opened } else Slot.allocated i }

theorem owned_opened (i : Nat) (type : SockType) (ok : Bool) :
    Owned i (.opened i type ok) := by
  cases ok <;> refine ⟨?_, ?_, ?_, ?_, ?_⟩ <;>
    simp [Channel.opened, Channel.free, Slot.allocated]

/-- For an allocated slot three facts are enough. -/
theorem Owned.of_magic {i : Nat} {c : Channel} (hmagic : c.sock.magic = true)
    (hdata : c.sock.userData = if c.connected then i + 1 else i)
    (hconn : c.busy = .connecting → c.connected = false)
    (hopen : c.busy = .idle → c.sock.state = .opened → c.connected = false) : Owned i c where
  free hfree := by rw [hmagic] at hfree; exact absurd hfree (by decide)
  userData _ := hdata
  connecting hb := ⟨hmagic, hconn hb⟩
  busy _ := hmagic
  opened := hopen

theorem Owned.call {i : Nat} {c : Channel} (h : Owned i c) (a : Call) : Owned i (c.call a) := by
  cases a with
  | connectBegin =>
    rw [Channel.call]
    split_ifs with hb
    · simp only [Channel.ready, Bool.and_eq_true, beq_iff_eq] at hb
      obtain ⟨⟨hmagic, hidle⟩, hopen⟩ := hb
      exact .of_magic hmagic (h.userData hmagic) (fun _ => h.opened hidle hopen) nofun
    · exact h
  | connectEnd e =>
    rw [Channel.call]
    split_ifs with hb hok
    · -- the slot held its index, and now it holds the ConID
      obtain ⟨hmagic, hun⟩ := h.connecting (beq_iff_eq.mp hb)
      have hdata := h.userData hmagic
      rw [hun] at hdata
      exact .of_magic hmagic (congrArg (· + 1) hdata) nofun nofun
    · obtain ⟨hmagic, hun⟩ := h.connecting (beq_iff_eq.mp hb)
      exact .of_magic hmagic (h.userData hmagic) nofun (fun _ _ => hun)
    · exact h
  | connectReturn =>
    rw [Channel.call]
    split_ifs with hb
    · have hmagic := h.busy (beq_iff_eq.mp hb)
      exact .of_magic hmagic (h.userData hmagic) nofun nofun
    · exact h
  | sendto size turns => exact h
  | closeBegin respOk =>
    rw [Channel.call]
    split_ifs with hb
    · simp only [Channel.closable, Channel.ready, Bool.and_eq_true] at hb
      exact .of_magic hb.1.1 (h.userData hb.1.1) nofun nofun
    · exact h
  | closeEnd =>
    rw [Channel.call]
    split_ifs
    · exact owned_free i
    · exact h

theorem Owned.recvfrom {i : Nat} {c : Channel} (h : Owned i c) (mem : Bytes) (len : Nat) :
    Owned i (c.recvfrom mem len) := by
  rw [Channel.recvfrom, atRecvfrom]
  split_ifs with hb
  · simp only [Slot.reads, Bool.and_eq_true] at hb
    have hmagic := hb.1.2
    exact .of_magic hmagic (h.userData hmagic) (fun hb => (h.connecting hb).2) h.opened
  · simpa using h

theorem Owned.notice {i : Nat} {c : Channel} (h : Owned i c) (e : Notice) :
    Owned i (c.notice e) := by
  cases e with
  | recv off payload memOk =>
    rw [Channel.notice, atRecvNoticeCb_eq]
    split_ifs with hb
    · simp only [Slot.accepts, Bool.and_eq_true] at hb
      have hmagic := hb.1.1
      exact .of_magic hmagic (h.userData hmagic) (fun hb => (h.connecting hb).2) h.opened
    · exact h
  | closed =>
    rw [Channel.notice, atClosedNoticeCb]
    split_ifs with hb
    · exact h
    · have hmagic : c.sock.magic = true := by simpa using hb
      exact .of_magic hmagic (h.userData hmagic) (fun hb => (h.connecting hb).2) nofun

/-! ## The device -/

/-- A step of the device: a call on a slot, or an event of the module. -/
inductive Act where
  /-- `at_socket`.  `ok` is the creation of the semaphore and the lock. -/
  | socket (type : SockType) (ok : Bool)
  | call (i : Nat) (a : Call)
  | recvfrom (i : Nat) (mem : Bytes) (len : Nat)
  /-- `+EVENT:SocketDown`, with the place of the payload in the line buffer and
  its bytes. -/
  | socketDown (conId : Int) (off : Nat) (payload : Bytes) (memOk : Bool)
  | socketDisconnect (conId : Int)

def sockets (d : List Channel) : List Slot := d.map Channel.sock

/-- The driver hands the event of a connection to the slot that it finds. -/
def deliver (d : List Channel) (conId : Int) (e : Notice) : List Channel :=
  match aiwb2FindSocket (sockets d) conId with
  | some i => d.modify i (·.notice e)
  | none => d

def step (d : List Channel) : Act → List Channel
  | .socket type ok =>
    -- `at_socket` knows two types
    if type = .invalid then d
    else
      match freeSlot (sockets d) with
      | some i => d.set i (.opened i type ok)
      | none => d
  | .call i a => d.modify i (·.call a)
  | .recvfrom i mem len => d.modify i (·.recvfrom mem len)
  | .socketDown n off payload memOk => deliver d n (.recv off payload memOk)
  | .socketDisconnect n => deliver d n .closed

/-- The device after power on: all slots are zero. -/
def start (socketNum : Nat) : List Channel := List.replicate socketNum .free

/-- Every slot has the property. -/
def AllSlots (P : Nat → Channel → Prop) (d : List Channel) : Prop :=
  ∀ i c, d[i]? = some c → P i c

section AllSlots

variable {P : Nat → Channel → Prop} {d : List Channel}

theorem allSlots_start (socketNum : Nat) (hfree : ∀ i, P i .free) :
    AllSlots P (start socketNum) := by
  intro i c hc
  rw [start, List.getElem?_replicate] at hc
  split_ifs at hc
  cases hc
  exact hfree i

theorem AllSlots.modify (h : AllSlots P d) (i : Nat) {f : Channel → Channel}
    (hf : ∀ c, P i c → P i (f c)) : AllSlots P (d.modify i f) := by
  intro j c hc
  rw [List.getElem?_modify] at hc
  cases hj : d[j]? with
  | none => rw [hj] at hc; exact absurd hc (by simp)
  | some c₀ =>
    rw [hj] at hc
    obtain rfl := Option.some.inj hc
    have hold := h j c₀ hj
    dsimp only
    split_ifs with hij
    · subst hij
      exact hf c₀ hold
    · exact hold

theorem AllSlots.socket (h : AllSlots P d) (type : SockType) (ok : Bool)
    (hopened : ∀ i, P i (.opened i type ok)) : AllSlots P (step d (.socket type ok)) := by
  rw [step]
  split_ifs
  · exact h
  · split
    · rename_i i _
      intro j c hc
      rw [List.getElem?_set] at hc
      split_ifs at hc with hij
      · obtain rfl := Option.some.inj hc
        subst hij
        exact hopened i
      · exact h j c hc
    · exact h

theorem AllSlots.deliver (h : AllSlots P d) (n : Int) (e : Notice)
    (hnotice : ∀ i c, P i c → P i (c.notice e)) : AllSlots P (deliver d n e) := by
  unfold AiWb2.deliver
  split
  · exact h.modify _ (hnotice _)
  · exact h

end AllSlots

/-- The invariant of the device. -/
abbrev AllOwned (d : List Channel) : Prop := AllSlots Owned d

theorem allOwned_start (socketNum : Nat) : AllOwned (start socketNum) :=
  allSlots_start socketNum owned_free

theorem AllOwned.step {d : List Channel} (h : AllOwned d) (a : Act) : AllOwned (step d a) := by
  cases a with
  | socket type ok => exact h.socket type ok fun i => owned_opened i type ok
  | call i a => exact h.modify i fun _ hc => hc.call a
  | recvfrom i mem len => exact h.modify i fun _ hc => hc.recvfrom mem len
  | socketDown n off payload memOk => exact h.deliver n _ fun _ _ hc => hc.notice _
  | socketDisconnect n => exact h.deliver n _ fun _ _ hc => hc.notice _

end Hc32Board.AiWb2
