import Hc32Board.AtSocket.Packets
import Hc32Board.CodeLib.Scanf

/-!
# The sockets of the Ai-WB2 driver

`at_socket_aiwb2.c`, with the parts of `at_socket.c` that work on one socket
object.  `Slot` is `struct at_socket`, one entry of `device->sockets`.

`user_data` has two meanings.  `alloc_socket_by_device` stores the index of the
slot, and a successful `aiwb2_socket_connect` stores the ConID, which is the
index plus one.  `aiwb2_find_socket`, `aiwb2_socket_send` and
`aiwb2_socket_close` read it without knowing which of the two it is.

The locks, the socket descriptors and the event counters of `at_socket.c` are
left out.  The device is found by its name, and both callbacks are registered.
-/

namespace Hc32Board.AiWb2

open Hc32Board.CodeLib
open Hc32Board.AtSocket

/-! ## The socket object -/

/-- `enum at_socket_state`, without `AT_SOCKET_LISTEN`. -/
inductive SockState where
  | none | opened | connect | closed
deriving DecidableEq, Repr

/-- `enum at_socket_type`. -/
inductive SockType where
  | invalid | tcp | udp
deriving DecidableEq, Repr

/-- `struct at_socket`.  `magic` says whether the field holds
`AT_SOCKET_MAGIC`. -/
structure Slot where
  magic : Bool
  userData : Nat
  state : SockState
  type : SockType
  recvpktList : List Pkt
deriving DecidableEq

/-- A slot that was never allocated, or that `free_socket` cleared. -/
def Slot.freed : Slot := ⟨false, 0, .none, .invalid, []⟩

/-- A slot as `alloc_socket_by_device` leaves it. -/
def Slot.allocated (idx : Nat) : Slot := ⟨true, idx, .none, .invalid, []⟩

/-- The slot that `alloc_socket_by_device` takes: the first free one. -/
def freeSlot (sockets : List Slot) : Option Nat := sockets.findIdx? fun s => !s.magic

/-- The pointers that `free_socket` passes to `rt_free`, before it clears the
slot. -/
def freeSocketFrees (sock : Slot) : List Nat := atRecvpktAllDelete sock.recvpktList

/-- What `at_recv_notice_cb` does: the slot afterwards, and the pointers it
passes to `rt_free`. -/
structure Noticed where
  sock : Slot
  freed : List Nat

/-- `at_recv_notice_cb`.  `memOk` is the allocation of the packet.  A payload
that is not queued has its pointer passed to `rt_free`. -/
def atRecvNoticeCb (sock : Slot) (buff bfsz : Nat) (memOk : Bool) : Noticed :=
  if !sock.magic || sock.state == .closed then ⟨sock, [buff]⟩
  else if memOk then ⟨{ sock with recvpktList := sock.recvpktList ++ [Pkt.fresh buff bfsz] }, []⟩
  else ⟨sock, [buff]⟩

/-- A payload for this socket is put into its packet list. -/
def Slot.accepts (sock : Slot) (memOk : Bool) : Bool :=
  sock.magic && sock.state != .closed && memOk

theorem atRecvNoticeCb_eq (sock : Slot) (buff bfsz : Nat) (memOk : Bool) :
    atRecvNoticeCb sock buff bfsz memOk =
      if sock.accepts memOk then
        ⟨{ sock with recvpktList := sock.recvpktList ++ [Pkt.fresh buff bfsz] }, []⟩
      else ⟨sock, [buff]⟩ := by
  unfold atRecvNoticeCb Slot.accepts
  cases sock.magic <;> cases sock.state <;> cases memOk <;> rfl

/-- `at_closed_notice_cb`. -/
def atClosedNoticeCb (sock : Slot) : Slot :=
  if !sock.magic then sock else { sock with state := .closed }

/-- What one turn of `at_recvfrom` does: the bytes for the reader, the slot
afterwards, and the pointers passed to `rt_free`. -/
structure Recvd where
  bytes : Bytes
  sock : Slot
  freed : List Nat

/-- The socket is open for `at_recvfrom`, and the call asks for bytes. -/
def Slot.reads (sock : Slot) (len : Nat) : Bool :=
  len != 0 && sock.magic && sock.state != .closed

/-- One turn of the loop of `at_recvfrom`.  A call that has to wait is a turn
that hands out nothing, and a later one. -/
def atRecvfrom (mem : Bytes) (sock : Slot) (len : Nat) : Recvd :=
  if sock.reads len then
    let r := atRecvpktGet mem sock.recvpktList len
    ⟨r.bytes, { sock with recvpktList := r.pkts }, r.freed⟩
  else ⟨[], sock, []⟩

/-- `at_sendto` passes the data to the driver.  For UDP there is no check of
the state. -/
def sendAllowed (sock : Slot) : Bool :=
  match sock.type with
  | .tcp => sock.state == .connect || sock.state == .opened
  | .udp => true
  | .invalid => false

/-! ## The driver -/

/-- The commands that name a connection. -/
inductive Command where
  /-- `AT+SOCKET=4` for TCP and `AT+SOCKET=2` for UDP. -/
  | socket (type : SockType) (conId : Nat)
  | socketSend (conId len : Nat)
  | socketDel (conId : Nat)
deriving DecidableEq, Repr

def Command.conId : Command → Nat
  | .socket _ n | .socketSend n _ | .socketDel n => n

/-- `aiwb2_find_socket`. -/
def aiwb2FindSocket (sockets : List Slot) (conId : Int) : Option Nat :=
  if conId ≤ 0 then none
  else sockets.findIdx? fun s => (s.userData : Int) == conId

/-- The environment of a connect: the memory for the response object, and the
lines of the response to each attempt.  `none` is a failed
`at_obj_exec_cmd`. -/
structure ConnectEnv where
  respOk : Bool
  first : Option (List Bytes)
  second : Option (List Bytes)
deriving DecidableEq

/-- `resp_con_id`: the number in the first line that scans, and `-1` if there
is none. -/
def respConId (lines : List Bytes) : Int :=
  (lines.findSome? fun line => (sscanf line "connect success ConID=%d").head?).getD (-1)

/-- The attempt succeeded with this ConID. -/
def attemptOk (conId : Nat) : Option (List Bytes) → Bool
  | some lines => respConId lines == conId
  | none => false

/-- The ConID that `aiwb2_socket_connect` asks for. -/
def reservedConId (sock : Slot) : Nat := sock.userData + 1

/-- `aiwb2_socket_connect` succeeds: with the first attempt or with the
retry. -/
def aiwb2SocketConnect (sock : Slot) (e : ConnectEnv) : Bool :=
  e.respOk && (attemptOk (reservedConId sock) e.first || attemptOk (reservedConId sock) e.second)

/-- The commands of `aiwb2_socket_connect`. -/
def connectCommands (sock : Slot) (e : ConnectEnv) : List Command :=
  if !e.respOk then []
  else if attemptOk (reservedConId sock) e.first then [.socket sock.type (reservedConId sock)]
  else [.socket sock.type (reservedConId sock), .socket sock.type (reservedConId sock)]

/-- `AIWB2_MODULE_SEND_MAX_SIZE`. -/
def moduleSendMaxSize : Nat := 1024

/-- `cur_pkt_size`. -/
def curPktSize (bfsz sentSize : Nat) : Nat :=
  if bfsz - sentSize < moduleSendMaxSize then bfsz - sentSize else moduleSendMaxSize

theorem curPktSize_le (bfsz sentSize : Nat) : curPktSize bfsz sentSize ≤ bfsz - sentSize := by
  unfold curPktSize
  split_ifs <;> omega

theorem curPktSize_pos {bfsz sentSize : Nat} (h : sentSize < bfsz) :
    0 < curPktSize bfsz sentSize := by
  unfold curPktSize moduleSendMaxSize
  split_ifs <;> omega

theorem curPktSize_le_max (bfsz sentSize : Nat) : curPktSize bfsz sentSize ≤ moduleSendMaxSize := by
  unfold curPktSize
  split_ifs <;> omega

/-- The commands of `aiwb2_socket_send`, for the ConID read at its start.
`turns` is the number of turns of the loop that reach the command before the
function leaves it. -/
def sendCommands (conId bfsz sentSize : Nat) : Nat → List Command
  | 0 => []
  | turns + 1 =>
    if sentSize < bfsz then
      .socketSend conId (curPktSize bfsz sentSize) ::
        sendCommands conId bfsz (sentSize + curPktSize bfsz sentSize) turns
    else []

/-- `strchr(data + start, ch)`, as an offset of `data`. -/
def strchr (data : Bytes) (start : Nat) (ch : UInt8) : Option Nat :=
  (((cstr data).drop start).findIdx? (· == ch)).map (start + ·)

/-- `data_ptr`: the offset behind the third comma. -/
def dataPtr (data : Bytes) : Option Nat := do
  let p ← strchr data 0 44
  let p ← strchr data (p + 1) 44
  let p ← strchr data (p + 1) 44
  return p + 1

/-- What `urc_recv_func` reads from a line: the ConID and the place of the
payload. -/
structure SocketDown where
  conId : Int
  off : Nat
  bfsz : Nat
deriving DecidableEq, Repr

/-- `avail`: the bytes of the line from `off`, without the CR LF at its
end. -/
def availLen (data : Bytes) (off : Nat) : Nat :=
  let avail := data.length - off
  if 2 ≤ avail && [13, 10].isSuffixOf data then avail - 2 else avail

/-- `urc_recv_func` up to `aiwb2_find_socket`.  A negative length becomes a
large `size_t`. -/
def urcRecvFunc (data : Bytes) : Option SocketDown :=
  match sscanf data "+EVENT:SocketDown,%d,%d" with
  | [conId, len] =>
    (dataPtr data).bind fun off =>
      let bfsz := (len % 2 ^ 32).toNat
      if conId < 0 || bfsz = 0 then none
      else some ⟨conId, off, min bfsz (availLen data off)⟩
  | _ => none

/-- `urc_close_func` up to `aiwb2_find_socket`. -/
def urcCloseFunc (data : Bytes) : Option Int :=
  match sscanf data "+EVENT:SocketDisconnect,%d" with
  | [conId] => some conId
  | _ => none

example : urcRecvFunc (ascii "+EVENT:SocketDown,1,5,hello\r\n") = some ⟨1, 22, 5⟩ := by decide

end Hc32Board.AiWb2
