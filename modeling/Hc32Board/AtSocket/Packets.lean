import Hc32Board.CodeLib.Bytes

/-!
# The receive packets of a socket

`at_recvpkt_put`, `at_recvpkt_get` and the two delete functions of
`at_socket.c`.  A packet does not hold bytes.  It holds the pointer that the
driver passed, here an offset into the line buffer of the AT client, and the
bytes are read through it when the application reads.  `queued` is what the
packets of a socket show in the memory as it is now.

A packet that is deleted has its pointer passed to `rt_free`.  The functions
return these pointers as `freed`.  What `rt_free` makes of a pointer into the
line buffer is the matter of `AiWb2.Receive`.

* `atRecvpktGet_append`: a read hands out the front of the queued bytes and
  leaves the rest.
* `atRecvpktGet_freed_iff`: a read frees nothing exactly if it stays inside the
  first packet.
-/

namespace Hc32Board.AtSocket

open Hc32Board.CodeLib

/-- The `n` bytes at an offset of a buffer.  The buffer is zero behind the
bytes given. -/
def readAt (mem : Bytes) (off n : Nat) : Bytes :=
  (List.range n).map fun i => mem.getD (off + i) 0

@[simp] theorem length_readAt (mem : Bytes) (off n : Nat) : (readAt mem off n).length = n := by
  simp [readAt]

@[simp] theorem readAt_zero (mem : Bytes) (off : Nat) : readAt mem off 0 = [] := rfl

/-- Two adjacent reads are one read. -/
theorem readAt_add (mem : Bytes) (off a b : Nat) :
    readAt mem off (a + b) = readAt mem off a ++ readAt mem (off + a) b := by
  unfold readAt
  rw [List.range_add, List.map_append, List.map_map]
  congr 1
  apply List.map_congr_left
  intro i _
  rw [Function.comp_apply, Nat.add_assoc]

theorem readAt_eq_take_drop {mem : Bytes} {off n : Nat} (h : off + n ≤ mem.length) :
    readAt mem off n = (mem.drop off).take n := by
  refine List.ext_getElem ?_ fun i hi _ => ?_
  · rw [length_readAt, List.length_take, List.length_drop]
    omega
  · rw [length_readAt] at hi
    have hlt : off + i < mem.length := by omega
    simp [readAt, List.getElem?_eq_getElem hlt]

/-- `struct at_recv_pkt`.  `buff` is the offset of the data in the line
buffer. -/
structure Pkt where
  buff : Nat
  bfszTotle : Nat
  bfszIndex : Nat
  indexLe : bfszIndex ≤ bfszTotle
deriving DecidableEq

/-- The packet that `at_recvpkt_put` appends. -/
def Pkt.fresh (buff length : Nat) : Pkt := ⟨buff, length, 0, Nat.zero_le _⟩

/-- The bytes of a packet that were not read yet. -/
def Pkt.rest (mem : Bytes) (p : Pkt) : Bytes :=
  readAt mem (p.buff + p.bfszIndex) (p.bfszTotle - p.bfszIndex)

def queued (mem : Bytes) (pkts : List Pkt) : Bytes := pkts.flatMap (Pkt.rest mem)

/-- What a call of `at_recvpkt_get` does: the bytes it copies, the packets it
leaves, and the pointers it passes to `rt_free`. -/
structure PktGet where
  bytes : Bytes
  pkts : List Pkt
  freed : List Nat

/-- The loop of `at_recvpkt_get`: `need` bytes are still wanted. -/
def atRecvpktGet (mem : Bytes) : List Pkt → Nat → PktGet
  | [], _ => ⟨[], [], []⟩
  | p :: ps, need =>
    if h : need ≤ p.bfszTotle - p.bfszIndex then
      -- the packet has enough; `at_recvpkt_node_delete` when it is used up
      if p.bfszIndex + need = p.bfszTotle then
        ⟨readAt mem (p.buff + p.bfszIndex) need, ps, [p.buff]⟩
      else
        ⟨readAt mem (p.buff + p.bfszIndex) need,
          ⟨p.buff, p.bfszTotle, p.bfszIndex + need, by have := p.indexLe; omega⟩ :: ps, []⟩
    else
      let r := atRecvpktGet mem ps (need - (p.bfszTotle - p.bfszIndex))
      ⟨p.rest mem ++ r.bytes, r.pkts, p.buff :: r.freed⟩

/-- `at_recvpkt_all_delete`: the pointers it passes to `rt_free`. -/
def atRecvpktAllDelete (pkts : List Pkt) : List Nat := pkts.map Pkt.buff

/-- A read stays inside the first packet and leaves some of it, or there is no
packet. -/
def StaysInFirst (pkts : List Pkt) (need : Nat) : Prop :=
  ∀ p ∈ pkts.head?, p.bfszIndex + need < p.bfszTotle

instance (pkts : List Pkt) (need : Nat) : Decidable (StaysInFirst pkts need) :=
  inferInstanceAs (Decidable (∀ p ∈ pkts.head?, _))

/-- A read deletes no packet exactly if it stays inside the first one. -/
theorem atRecvpktGet_freed_iff (mem : Bytes) (pkts : List Pkt) (need : Nat) :
    (atRecvpktGet mem pkts need).freed = [] ↔ StaysInFirst pkts need := by
  cases pkts with
  | nil => exact iff_of_true rfl fun p hp => absurd hp (by simp)
  | cons p ps =>
    have hle := p.indexLe
    have hfirst : StaysInFirst (p :: ps) need ↔ p.bfszIndex + need < p.bfszTotle := by
      simp [StaysInFirst]
    rw [hfirst, atRecvpktGet]
    split_ifs with h hend
    · exact iff_of_false id (by omega)
    · exact iff_of_true rfl (by omega)
    · exact iff_of_false id (by omega)

/-- A read hands out the front of the queued bytes and leaves the rest. -/
theorem atRecvpktGet_append (mem : Bytes) (pkts : List Pkt) : ∀ need,
    (atRecvpktGet mem pkts need).bytes ++ queued mem (atRecvpktGet mem pkts need).pkts =
      queued mem pkts := by
  induction pkts with
  | nil => intro need; rfl
  | cons p ps ih =>
    intro need
    have hle := p.indexLe
    rw [atRecvpktGet]
    split_ifs with h hend
    · -- the packet is used up
      show readAt mem (p.buff + p.bfszIndex) need ++ queued mem ps = p.rest mem ++ queued mem ps
      have hneed : need = p.bfszTotle - p.bfszIndex := by omega
      rw [hneed, Pkt.rest]
    · -- the packet is split
      have hsplit : p.bfszTotle - p.bfszIndex = need + (p.bfszTotle - (p.bfszIndex + need)) := by
        omega
      show readAt mem (p.buff + p.bfszIndex) need ++
          (readAt mem (p.buff + (p.bfszIndex + need)) (p.bfszTotle - (p.bfszIndex + need)) ++
            queued mem ps) = p.rest mem ++ queued mem ps
      rw [Pkt.rest, hsplit, readAt_add, List.append_assoc, Nat.add_assoc]
    · show (p.rest mem ++ _) ++ queued mem _ = p.rest mem ++ queued mem ps
      rw [List.append_assoc, ih]

theorem queued_append (mem : Bytes) (ps qs : List Pkt) :
    queued mem (ps ++ qs) = queued mem ps ++ queued mem qs := by
  simp [queued]

theorem queued_fresh (mem : Bytes) (buff length : Nat) :
    queued mem [Pkt.fresh buff length] = readAt mem buff length := by
  simp [queued, Pkt.rest, Pkt.fresh]

/-- Packets without unread bytes show nothing, whatever the memory holds. -/
theorem queued_eq_nil_iff (mem : Bytes) (pkts : List Pkt) :
    queued mem pkts = [] ↔ ∀ p ∈ pkts, p.bfszIndex = p.bfszTotle := by
  unfold queued
  rw [List.flatMap_eq_nil_iff]
  constructor
  · intro h p hp
    have hrest := congrArg List.length (h p hp)
    rw [Pkt.rest, length_readAt, List.length_nil] at hrest
    have hle := p.indexLe
    omega
  · intro h p hp
    rw [Pkt.rest, h p hp, Nat.sub_self, readAt_zero]

end Hc32Board.AtSocket
