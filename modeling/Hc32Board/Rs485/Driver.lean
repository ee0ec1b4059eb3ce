import Hc32Board.CodeLib.Run
import Hc32Board.Rs485.Lwrb

/-!
# The receive path of the RS485 driver

`rs485_rx_ind`, `rs485_recv`, `rs485_send` and `rs485_send_then_recv` of
`rs485.c`, after `rs485_init` has completed, as a transition system.

One thread calls the driver, and receive interrupts come between any two of its
steps.

* `rs485_recv` is two steps or three: it takes `rx_sem`, it may wait there, and
  it reads the ring with interrupts disabled.
* `rs485_send` is two steps, its begin and its return.
* The callback is one step.  It is handed the bytes that `rt_device_read` gives
  it before that returns 0.

The state has a history for the statements about whole runs.  A byte in the
ring is an `Arrival`: the byte, the step of its arrival, and the number of
unread bytes it found.  A call of `rs485_send_then_recv` keeps a `SendMark`
of the moment its send began, and each call that reads the ring leaves a
`Result`.

`rs485_dev` is not `NULL` here.  The direction pin and the bytes sent are left
out.
-/

namespace Hc32Board.Rs485

open Hc32Board.CodeLib

/-- `RS485_RX_BUF_SIZE`. -/
def rxBufSize : Nat := 512

/-- A byte that the callback took from the UART. -/
structure Arrival where
  byte : UInt8
  /-- The step in which it arrived. -/
  time : Nat
  /-- The unread bytes in the ring when it arrived. -/
  unread : Nat
deriving DecidableEq, Repr

/-- The state of the ring when `rs485_send` began. -/
structure SendMark where
  time : Nat
  unread : Nat
deriving DecidableEq, Repr

/-- The arguments of `rs485_recv`.  `buf` tells whether the pointer is not
`NULL`. -/
structure RecvArgs where
  buf : Bool
  maxLen : Nat
  timeoutMs : BitVec 32
deriving DecidableEq, Repr

/-- A call of `rs485_recv` in progress.  `mark` is set if it belongs to a
`rs485_send_then_recv`. -/
structure Frame where
  args : RecvArgs
  mark : Option SendMark
  /-- The unread bytes when `rs485_recv` was called. -/
  unreadAtCall : Nat
deriving DecidableEq, Repr

/-- The results of `rt_sem_take` with which `rs485_recv` goes on. -/
inductive TakeErr where
  | eok | etimeout
deriving DecidableEq, Repr

/-- Where the calling thread is. -/
inductive Pc where
  | idle
  /-- Inside `rs485_send`.  `next` is the receive of
  `rs485_send_then_recv`. -/
  | sending (mark : SendMark) (next : Option RecvArgs)
  /-- Suspended in `rt_sem_take`. -/
  | waiting (f : Frame)
  /-- Before the read of the ring. -/
  | taken (f : Frame) (err : TakeErr)
deriving DecidableEq, Repr

/-- The call of `rs485_recv` in progress. -/
def Pc.frame : Pc → Option Frame
  | .waiting f | .taken f _ => some f
  | _ => none

/-- A call of `rs485_recv` that read the ring.  It returned the number of
bytes in `data`. -/
structure Result where
  frame : Frame
  err : TakeErr
  data : List Arrival
deriving DecidableEq, Repr

structure Driver where
  rxRb : Lwrb Arrival
  /-- The count of `rx_sem`. -/
  rxSem : Nat
  pc : Pc
  time : Nat
  /-- All bytes that the callback took, in order. -/
  drained : List Arrival
  results : List Result

/-- `rx_rb_data`. -/
def rxRbData : List Arrival := List.replicate rxBufSize ⟨0, 0, 0⟩

theorem length_rxRbData : rxRbData.length = rxBufSize := List.length_replicate

theorem rxRbData_pos : 0 < rxRbData.length := by
  rw [length_rxRbData]
  decide

/-- The ring after `lwrb_init`. -/
def rxRbInit : Lwrb Arrival := ⟨rxRbData, 0, 0, rxRbData_pos, rxRbData_pos⟩

theorem lwrbInit_rxRbData : lwrbInit rxRbData = some rxRbInit := by
  rw [lwrbInit, dif_pos rxRbData_pos, rxRbInit]

/-- The driver after `rs485_init`. -/
def Driver.init : Driver where
  rxRb := rxRbInit
  rxSem := 0
  pc := .idle
  time := 0
  drained := []
  results := []

/-- The bytes that `rs485_recv` has returned so far. -/
def Driver.returned (s : Driver) : List Arrival := s.results.flatMap (·.data)

/-! ## The semaphore -/

/-- `RT_SEM_VALUE_MAX`. -/
def rtSemValueMax : Nat := 65535

/-- The count after `rt_sem_release` when no thread waits. -/
def rtSemRelease (value : Nat) : Nat := if value < rtSemValueMax then value + 1 else value

/-- `rt_tick_from_millisecond`, with 1000 ticks per second. -/
def rtTickFromMillisecond (ms : Int) : Int :=
  if ms < 0 then -1 else 1000 * (ms / 1000) + (1000 * (ms % 1000) + 999) / 1000

/-- The timeout that `rs485_recv` gives to `rt_sem_take`.  A negative one waits
forever. -/
def RecvArgs.ticks (args : RecvArgs) : Int := rtTickFromMillisecond args.timeoutMs.toInt

/-- `rt_sem_take` up to its return or its suspension. -/
def rtSemTake (s : Driver) (f : Frame) : Driver :=
  if 0 < s.rxSem then { s with rxSem := s.rxSem - 1, pc := .taken f .eok }
  else if f.args.ticks = 0 then { s with pc := .taken f .etimeout }
  else { s with pc := .waiting f }

/-! ## The functions of the driver -/

/-- The loop of `rs485_rx_ind`. -/
def drain (s : Driver) : List UInt8 → Driver
  | [] => s
  | ch :: rest =>
    let a : Arrival := ⟨ch, s.time, s.rxRb.unread.length⟩
    drain { s with rxRb := (lwrbWrite s.rxRb [a]).1, drained := s.drained ++ [a] } rest

/-- `rs485_rx_ind`.  The release hands the count to a thread that waits. -/
def rs485RxInd (s : Driver) (bytes : List UInt8) : Driver :=
  let s := drain s bytes
  match s.pc with
  | .waiting f => { s with pc := .taken f .eok }
  | _ => { s with rxSem := rtSemRelease s.rxSem }

/-- `rs485_recv` up to `rt_sem_take`. -/
def rs485Recv (s : Driver) (args : RecvArgs) (mark : Option SendMark) : Driver :=
  if args.buf = false ∨ args.maxLen = 0 then { s with pc := .idle }
  else rtSemTake s ⟨args, mark, s.rxRb.unread.length⟩

/-- `rs485_recv` from the read of the ring to its return. -/
def recvRead (s : Driver) (f : Frame) (err : TakeErr) : Driver :=
  let r := lwrbRead s.rxRb f.args.maxLen
  { s with rxRb := r.1, pc := .idle, results := s.results ++ [⟨f, err, r.2⟩] }

/-- `rs485_send` up to the wait for the transmitter.  `data` tells whether the
pointer is not `NULL`. -/
def rs485Send (s : Driver) (data : Bool) (len : Nat) (next : Option RecvArgs) : Driver :=
  if data = false ∨ len = 0 then s
  else { s with pc := .sending ⟨s.time, s.rxRb.unread.length⟩ next }

/-! ## The transition system -/

inductive Act where
  /-- A receive interrupt, and the bytes that the callback reads. -/
  | rxInd (bytes : List UInt8)
  | recv (args : RecvArgs)
  | send (data : Bool) (len : Nat)
  | sendThenRecv (data : Bool) (len : Nat) (args : RecvArgs)
  | sendReturn
  /-- The timer of the suspended thread. -/
  | expire
  /-- `rt_sem_take` gives up with another error. -/
  | takeFails
  | read
deriving DecidableEq, Repr

/-- One step.  A step that the thread cannot take leaves the state. -/
def Driver.act (s : Driver) : Act → Driver
  | .rxInd bytes => rs485RxInd s bytes
  | .recv args => if s.pc = .idle then rs485Recv s args none else s
  | .send data len => if s.pc = .idle then rs485Send s data len none else s
  | .sendThenRecv data len args => if s.pc = .idle then rs485Send s data len (some args) else s
  | .sendReturn =>
    match s.pc with
    | .sending _ none => { s with pc := .idle }
    | .sending mark (some args) => rs485Recv s args (some mark)
    | _ => s
  | .expire =>
    match s.pc with
    | .waiting f => if 0 < f.args.ticks then { s with pc := .taken f .etimeout } else s
    | _ => s
  | .takeFails =>
    match s.pc with
    | .waiting _ => { s with pc := .idle }
    | _ => s
  | .read =>
    match s.pc with
    | .taken f err => recvRead s f err
    | _ => s

def step (s : Driver) (a : Act) : Driver := { s.act a with time := s.time + 1 }

/-- The bytes of a receive interrupt. -/
def Act.bytes : Act → List UInt8
  | .rxInd bytes => bytes
  | _ => []

/-! ## What the callback does -/

@[simp] theorem drain_pc (bytes : List UInt8) (s : Driver) : (drain s bytes).pc = s.pc := by
  induction bytes generalizing s with
  | nil => rfl
  | cons ch rest ih => exact ih _

@[simp] theorem drain_results (bytes : List UInt8) (s : Driver) :
    (drain s bytes).results = s.results := by
  induction bytes generalizing s with
  | nil => rfl
  | cons ch rest ih => exact ih _

@[simp] theorem drain_rxSem (bytes : List UInt8) (s : Driver) :
    (drain s bytes).rxSem = s.rxSem := by
  induction bytes generalizing s with
  | nil => rfl
  | cons ch rest ih => exact ih _

/-- What the arrivals of one callback are.  They come in order, each carries
the step, and those that find room are appended to the ring. -/
theorem drain_spec (bytes : List UInt8) (s : Driver) :
    ∃ new : List Arrival,
      (drain s bytes).drained = s.drained ++ new ∧
      (drain s bytes).rxRb.unread =
        s.rxRb.unread ++ new.filter (fun a => a.unread < s.rxRb.size - 1) ∧
      (drain s bytes).rxRb.size = s.rxRb.size ∧
      new.map Arrival.byte = bytes ∧ ∀ a ∈ new, a.time = s.time ∧ a.unread < s.rxRb.size := by
  induction bytes generalizing s with
  | nil => exact ⟨[], by simp [drain]⟩
  | cons ch rest ih =>
    have hsize := lwrbWrite_size s.rxRb [(⟨ch, s.time, s.rxRb.unread.length⟩ : Arrival)]
    have hunread := lwrbWrite_unread s.rxRb [(⟨ch, s.time, s.rxRb.unread.length⟩ : Arrival)]
    obtain ⟨new, hdrained, hring, hsz, hbytes, htime⟩ := ih
      { s with
        rxRb := (lwrbWrite s.rxRb [(⟨ch, s.time, s.rxRb.unread.length⟩ : Arrival)]).1
        drained := s.drained ++ [⟨ch, s.time, s.rxRb.unread.length⟩] }
    refine ⟨⟨ch, s.time, s.rxRb.unread.length⟩ :: new, ?_, ?_, ?_, ?_, ?_⟩
    · rw [drain, hdrained, List.append_assoc]
      rfl
    · rw [drain, hring, hunread, hsize, List.append_assoc, List.filter_cons]
      congr 1
      have hfree := lwrbGetFree_eq s.rxRb
      rw [← s.rxRb.length_unread] at hfree
      simp only [decide_eq_true_eq]
      split_ifs with hroom
      · rw [List.take_of_length_le (by simp only [List.length_singleton]; omega)]
        rfl
      · have hzero : lwrbGetFree s.rxRb = 0 := by omega
        rw [hzero, List.take_zero, List.nil_append]
    · rw [drain, hsz, hsize]
    · rw [List.map_cons, hbytes]
    · intro a ha
      rcases List.mem_cons.mp ha with rfl | ha
      · exact ⟨rfl, s.rxRb.length_unread ▸ lwrbGetFull_lt s.rxRb⟩
      · exact hsize ▸ htime a ha

/-! ## What a step does -/

@[simp] theorem rs485RxInd_rxRb (s : Driver) (bytes : List UInt8) :
    (rs485RxInd s bytes).rxRb = (drain s bytes).rxRb := by
  rw [rs485RxInd]
  split <;> rfl

@[simp] theorem rs485RxInd_drained (s : Driver) (bytes : List UInt8) :
    (rs485RxInd s bytes).drained = (drain s bytes).drained := by
  rw [rs485RxInd]
  split <;> rfl

@[simp] theorem rs485RxInd_results (s : Driver) (bytes : List UInt8) :
    (rs485RxInd s bytes).results = s.results := by
  rw [rs485RxInd, ← drain_results bytes s]
  split <;> rfl

/-- The fields that only the callback and the read of the ring change. -/
structure SameBytes (s s' : Driver) : Prop where
  rxRb : s'.rxRb = s.rxRb
  drained : s'.drained = s.drained
  results : s'.results = s.results

theorem SameBytes.refl (s : Driver) : SameBytes s s := ⟨rfl, rfl, rfl⟩

/-- `rs485_recv` up to `rt_sem_take`: it returns at once, it has the semaphore,
it has the timeout, or it waits. -/
theorem rs485Recv_cases (s : Driver) (args : RecvArgs) (mark : Option SendMark) :
    let f : Frame := ⟨args, mark, s.rxRb.unread.length⟩
    rs485Recv s args mark = { s with pc := .idle } ∨
      0 < args.maxLen ∧
        (0 < s.rxSem ∧
            rs485Recv s args mark = { s with rxSem := s.rxSem - 1, pc := .taken f .eok } ∨
          s.rxSem = 0 ∧ rs485Recv s args mark = { s with pc := .taken f .etimeout } ∨
          s.rxSem = 0 ∧ rs485Recv s args mark = { s with pc := .waiting f }) := by
  intro f
  rw [rs485Recv]
  split_ifs with hargs
  · exact .inl rfl
  · refine .inr ⟨by omega, ?_⟩
    rw [rtSemTake]
    split_ifs with hsem hticks
    · exact .inl ⟨hsem, rfl⟩
    · exact .inr (.inl ⟨by omega, rfl⟩)
    · exact .inr (.inr ⟨by omega, rfl⟩)

theorem sameBytes_rs485Recv (s : Driver) (args : RecvArgs) (mark : Option SendMark) :
    SameBytes s (rs485Recv s args mark) := by
  rcases rs485Recv_cases s args mark with h | ⟨-, ⟨-, h⟩ | ⟨-, h⟩ | ⟨-, h⟩⟩ <;> rw [h] <;>
    exact ⟨rfl, rfl, rfl⟩

theorem sameBytes_rs485Send (s : Driver) (data : Bool) (len : Nat) (next : Option RecvArgs) :
    SameBytes s (rs485Send s data len next) := by
  unfold rs485Send
  split_ifs <;> exact ⟨rfl, rfl, rfl⟩

/-- A step is a callback, a read of the ring, or it leaves the bytes alone. -/
theorem act_cases (s : Driver) (a : Act) :
    (∃ bytes, a = .rxInd bytes) ∨ (∃ f err, a = .read ∧ s.pc = .taken f err) ∨
      SameBytes s (s.act a) ∧ a.bytes = [] := by
  cases a with
  | rxInd bytes => exact .inl ⟨bytes, rfl⟩
  | recv args =>
    refine .inr (.inr ⟨?_, rfl⟩)
    rw [Driver.act]
    split_ifs
    · exact sameBytes_rs485Recv s args none
    · exact .refl s
  | send data len =>
    refine .inr (.inr ⟨?_, rfl⟩)
    rw [Driver.act]
    split_ifs
    · exact sameBytes_rs485Send s data len none
    · exact .refl s
  | sendThenRecv data len args =>
    refine .inr (.inr ⟨?_, rfl⟩)
    rw [Driver.act]
    split_ifs
    · exact sameBytes_rs485Send s data len (some args)
    · exact .refl s
  | sendReturn =>
    refine .inr (.inr ⟨?_, rfl⟩)
    rw [Driver.act]
    split
    · exact ⟨rfl, rfl, rfl⟩
    · exact sameBytes_rs485Recv s _ _
    · exact .refl s
  | expire =>
    refine .inr (.inr ⟨?_, rfl⟩)
    rw [Driver.act]
    split
    · split_ifs
      · exact ⟨rfl, rfl, rfl⟩
      · exact .refl s
    · exact .refl s
  | takeFails =>
    refine .inr (.inr ⟨?_, rfl⟩)
    rw [Driver.act]
    split
    · exact ⟨rfl, rfl, rfl⟩
    · exact .refl s
  | read =>
    cases hpc : s.pc with
    | taken f err => exact .inr (.inl ⟨f, err, rfl, rfl⟩)
    | idle => refine .inr (.inr ⟨?_, rfl⟩); rw [Driver.act, hpc]; exact .refl s
    | sending mark next => refine .inr (.inr ⟨?_, rfl⟩); rw [Driver.act, hpc]; exact .refl s
    | waiting f => refine .inr (.inr ⟨?_, rfl⟩); rw [Driver.act, hpc]; exact .refl s

end Hc32Board.Rs485
