import Hc32Board.AiWb2.Socket
import Hc32Board.AtClient.Response
import Hc32Board.CodeLib.Run

/-!
# A send and the parser

`aiwb2_socket_send` with the functions that it calls, `at_obj_exec_cmd`,
`at_client_obj_send` and `aiwb2_send_wait`, against the parser thread
`client_parser`.  One step is one access of a thread to the AT client, and the
two threads interleave in every order.

For each chunk the sender runs two waits.

* `Stage.cmd`: `at_obj_exec_cmd` sends `AT+SOCKETSEND` and waits for the
  prompt, with a response of one line.
* `Stage.confirm`: after the data was sent, `aiwb2_send_wait` waits for `OK`.

Both install their response object in the client, reset the semaphore, and then
wait for it.  The client lock is held from the start to the end of the send, so
there is no other waiting thread.  There is one response object at a time:
`obj` is the one that was created last.

The history of a run is the sizes of the chunks that were sent, the line that
ended the wait for each, and the lines that the parser took up and processed.
-/

namespace Hc32Board.AiWb2

open Hc32Board.CodeLib
open Hc32Board.AtClient

/-- The two waits for a chunk. -/
inductive Stage where
  | cmd | confirm
deriving DecidableEq, Repr

/-- The error codes of the driver. -/
inductive Rc where
  | eok | error | timeout | nomem
deriving DecidableEq, Repr

/-- A line that is not a URC, with the number of chunks that had been sent when
the parser took it up. -/
structure Answer where
  line : Bytes
  chunk : Nat
deriving DecidableEq, Repr

/-- The result of `aiwb2_socket_send`. -/
inductive SendRet where
  | size (n : Int)
  | fail (rc : Rc)
deriving DecidableEq, Repr

/-- Where the sender is. -/
inductive Pc where
  | enter
  | loop
  /-- `resp_status` is set. -/
  | status (st : Stage)
  /-- `client->resp` is set. -/
  | install (st : Stage)
  /-- The semaphore is reset. -/
  | reset (st : Stage)
  /-- The command is written. -/
  | write
  /-- The semaphore is taken. -/
  | take (st : Stage)
  /-- `resp_status` is read. -/
  | check (st : Stage) (ans : Answer)
  /-- `client->resp` is cleared. -/
  | clear (st : Stage) (rc : Rc) (ans : Option Answer)
  | data
  /-- The response for `aiwb2_send_wait` is created. -/
  | create
  | exit (rc : Rc)
  | done (ret : SendRet)
deriving DecidableEq, Repr

/-- Where the parser is. -/
inductive Parser where
  | idle
  | reading (b : LineBuf)
  | ready (line : Bytes) (urc : Option Urc)
  /-- The parser has read `client->resp`, which was not null. -/
  | gotResp (ans : Answer)
  /-- The response is complete: `client->resp` is cleared next. -/
  | clear (ans : Answer)
  /-- The semaphore is released next. -/
  | release (ans : Answer)
deriving DecidableEq, Repr

structure SendState where
  pc : Pc
  sentSize : Nat
  endSign : UInt8
  /-- `client->resp` is not null. -/
  installed : Bool
  obj : Resp
  /-- `client->resp_status`. -/
  respStatus : RespStatus
  /-- `client->resp_notice`: one entry for each release. -/
  tokens : List Answer
  parser : Parser
  /-- The sizes of the chunks that were handed to `at_client_obj_send`. -/
  chunks : List Nat
  /-- For each chunk that was confirmed, the line that ended the wait. -/
  acks : List Answer
  /-- The answers that the parser took up. -/
  taken : List Answer
  /-- The answers that the parser is through with. -/
  processed : List Answer
deriving DecidableEq

/-- The value of a `size_t` converted to `int`. -/
def toInt (n : Nat) : Int :=
  if n % 2 ^ 32 < 2 ^ 31 then (n % 2 ^ 32 : Nat) else (n % 2 ^ 32 : Nat) - 2 ^ 32

/-- A step of the sender.  `ok` is the result of what it calls outside the
client: an allocation, the check for the CLI mode, a write. -/
def senderStep (bfsz : Nat) (ok : Bool) (s : SendState) : SendState :=
  match s.pc with
  | .enter => { s with endSign := 62, pc := .loop }
  | .loop =>
    if s.sentSize < bfsz then
      if ok then { s with obj := atCreateResp 64 1, pc := .status .cmd }
      else { s with pc := .exit .nomem }
    else { s with pc := .exit .eok }
  | .status st =>
    if st == .cmd && !ok then { s with pc := .exit .error }
    else
      { s with
        respStatus := .ok
        obj := { s.obj with buf := [], lineCounts := 0 }
        pc := .install st }
  | .install st => { s with installed := true, pc := .reset st }
  | .reset .cmd => { s with tokens := [], pc := .write }
  | .reset .confirm => { s with tokens := [], pc := .take .confirm }
  | .write => { s with pc := .take .cmd }
  | .take st =>
    match s.tokens with
    | [] => s
    | ans :: tokens => { s with tokens, pc := .check st ans }
  | .check st ans =>
    { s with pc := .clear st (if s.respStatus = .ok then .eok else .error) (some ans) }
  | .clear .cmd rc _ =>
    { s with installed := false, pc := if rc = .eok then .data else .exit .error }
  | .clear .confirm rc ans =>
    if rc = .eok then
      { s with
        installed := false
        sentSize := s.sentSize + curPktSize bfsz s.sentSize
        acks := s.acks ++ ans.toList
        pc := .loop }
    else { s with installed := false, pc := .exit rc }
  | .data =>
    if ok then { s with chunks := s.chunks ++ [curPktSize bfsz s.sentSize], pc := .create }
    else { s with pc := .exit .error }
  | .create =>
    if ok then { s with obj := atCreateResp 64 0, pc := .status .confirm }
    else { s with pc := .exit .nomem }
  | .exit rc =>
    { s with
      endSign := 0
      pc := .done (if rc = .eok then .size (toInt s.sentSize) else .fail rc) }
  | .done _ => s

/-- The wait of the sender expires. -/
def timeoutStep (s : SendState) : SendState :=
  match s.pc, s.tokens with
  | .take st, [] => { s with respStatus := .timeout, pc := .clear st .timeout none }
  | _, _ => s

/-- A step of the parser. -/
def parserStep (s : SendState) : SendState :=
  match s.parser with
  | .idle => { s with parser := .reading .enter }
  | .reading _ => s
  | .ready _ (some _) => { s with parser := .idle }
  | .ready line none =>
    let ans : Answer := ⟨line, s.chunks.length⟩
    if s.installed then { s with taken := s.taken ++ [ans], parser := .gotResp ans }
    else
      -- nobody waits: the line is ignored
      { s with taken := s.taken ++ [ans], processed := s.processed ++ [ans], parser := .idle }
  | .gotResp ans =>
    let h := handleLine s.endSign s.respStatus s.obj ans.line
    if h.ended then { s with obj := h.resp, respStatus := h.status, parser := .clear ans }
    else
      { s with
        obj := h.resp
        respStatus := h.status
        processed := s.processed ++ [ans]
        parser := .idle }
  | .clear ans => { s with installed := false, parser := .release ans }
  | .release ans =>
    { s with tokens := s.tokens ++ [ans], processed := s.processed ++ [ans], parser := .idle }

/-- A character for the parser. -/
def rxCharStep (bufsz : Nat) (ch : UInt8) (s : SendState) : SendState :=
  match s.parser with
  | .reading b =>
    match b.rxChar bufsz s.endSign ch with
    | .more b => { s with parser := .reading b }
    | .line line urc => { s with parser := .ready line urc }
    | .full => { s with parser := .idle }
  | _ => s

inductive SendAct where
  | sender (ok : Bool)
  | timeout
  | parser
  | rx (ch : UInt8)
deriving DecidableEq, Repr

def sendStep (bfsz bufsz : Nat) (s : SendState) : SendAct → SendState
  | .sender ok => senderStep bfsz ok s
  | .timeout => timeoutStep s
  | .parser => parserStep s
  | .rx ch => rxCharStep bufsz ch s

end Hc32Board.AiWb2
