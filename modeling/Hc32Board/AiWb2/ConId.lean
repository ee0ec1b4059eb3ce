import Hc32Board.AiWb2.Slots

/-!
# Who owns a ConID

The ConID of slot `i` is `i + 1`.  Two questions about it:

* Does every command that is sent for a slot name the ConID of that slot?  It
  does exactly when the slot is connected: before, `user_data` is the index,
  which is the ConID of the slot below.
* Does every event reach the slot of its ConID and no other?  It does unless
  that slot is not connected and the slot above it is allocated and not
  connected, because that one holds the same number.

Both are equivalences along every run, from the power on of a device with any
number of slots.
-/

namespace Hc32Board.AiWb2

open Hc32Board.CodeLib

/-! ## Commands -/

theorem conId_of_mem_sendCommands {conId bfsz : Nat} {k : Command} :
    ∀ {turns sentSize : Nat}, k ∈ sendCommands conId bfsz sentSize turns → k.conId = conId := by
  intro turns
  induction turns with
  | zero => intro sentSize hk; exact absurd hk (List.not_mem_nil)
  | succ turns ih =>
    intro sentSize hk
    rw [sendCommands] at hk
    split_ifs at hk
    · cases List.mem_cons.mp hk with
      | inl h => rw [h]; rfl
      | inr h => exact ih h
    · exact absurd hk (List.not_mem_nil)

/-- A connect asks for the ConID of its slot, with both attempts. -/
theorem conId_of_mem_connectCommands {sock : Slot} {e : ConnectEnv} {k : Command}
    (hk : k ∈ connectCommands sock e) : k.conId = sock.userData + 1 := by
  unfold connectCommands at hk
  split_ifs at hk
  · exact absurd hk (List.not_mem_nil)
  · rw [List.mem_singleton.mp hk]; rfl
  · simp only [List.mem_cons, List.not_mem_nil, or_false, or_self] at hk
    rw [hk]; rfl

/-- The call gets to a command that uses the connection: a send that
`at_sendto` passes on, or a close of a socket that is not closed yet. -/
def Channel.uses (c : Channel) : Call → Bool
  | .sendto size turns =>
    c.sock.magic && sendAllowed c.sock && decide (0 < size) && decide (0 < turns)
  | .closeBegin respOk => c.closable && c.sock.state != .closed && respOk
  | _ => false

/-- The commands for a slot name its ConID exactly if no send and no close
comes before the connect. -/
theorem Owned.commands_iff {i : Nat} {c : Channel} (h : Owned i c) (a : Call) :
    (∀ k ∈ c.commands a, k.conId = i + 1) ↔ (c.uses a = true → c.connected = true) := by
  -- in a state with `magic`, `user_data` is the ConID exactly if the slot is connected
  have hdata : c.sock.magic = true → (c.sock.userData = i + 1 ↔ c.connected = true) := by
    intro hmagic
    rw [h.userData hmagic]
    cases c.connected <;> simp
  cases a with
  | connectEnd e =>
    rw [Channel.commands, show c.uses (.connectEnd e) = false from rfl]
    split_ifs with hb
    · obtain ⟨hmagic, hun⟩ := h.connecting (beq_iff_eq.mp hb)
      have hidx := h.userData hmagic
      rw [hun] at hidx
      refine ⟨nofun, fun _ k hk => ?_⟩
      rw [conId_of_mem_connectCommands hk, hidx]
      rfl
    · simp
  | sendto size turns =>
    rw [Channel.commands, Channel.uses]
    by_cases hok : (c.sock.magic && sendAllowed c.sock) = true
    · rw [if_pos hok, hok, Bool.true_and]
      simp only [Bool.and_eq_true, decide_eq_true_eq] at hok ⊢
      rw [← hdata hok.1]
      constructor
      · intro hk hpos
        obtain ⟨t, rfl⟩ : ∃ t, turns = t + 1 := ⟨turns - 1, by omega⟩
        rw [sendCommands, if_pos hpos.1] at hk
        exact hk _ List.mem_cons_self
      · intro hid k hk
        rw [conId_of_mem_sendCommands hk]
        apply hid
        -- a command was sent, so there was a turn and a byte
        cases turns with
        | zero => exact absurd hk (List.not_mem_nil)
        | succ t =>
          rw [sendCommands] at hk
          split_ifs at hk with hsize
          · exact ⟨hsize, Nat.succ_pos t⟩
          · exact absurd hk (List.not_mem_nil)
    · rw [if_neg hok, Bool.eq_false_iff.mpr hok]
      simp
  | closeBegin respOk =>
    rw [Channel.commands, Channel.uses]
    split_ifs with hb
    · have hmagic : c.sock.magic = true := by
        simp only [Channel.closable, Channel.ready, Bool.and_eq_true] at hb
        exact hb.1.1.1.1
      simp only [List.mem_singleton, forall_eq, Command.conId, hb, forall_const]
      exact hdata hmagic
    · simp [hb]
  | connectBegin => simp [Channel.commands, Channel.uses]
  | connectReturn => simp [Channel.commands, Channel.uses]
  | closeEnd => simp [Channel.commands, Channel.uses]

/-- The commands of a step of the device, each with the slot it is sent
for. -/
def commands (d : List Channel) : Act → List (Nat × Command)
  | .call i a => (d[i]?.map fun c => (c.commands a).map (i, ·)).getD []
  | _ => []

/-- The command names the ConID of slot `i`, and no other slot is connected
under it. -/
def OwnConn (d : List Channel) (i : Nat) (k : Command) : Prop :=
  k.conId = i + 1 ∧
    ∀ j c, d[j]? = some c → c.connected = true → c.sock.userData = k.conId → j = i

/-- A call of the step that uses the connection of its slot finds the slot
connected. -/
def UsesConnected (d : List Channel) : Act → Prop
  | .call i a => ∀ c, d[i]? = some c → c.uses a = true → c.connected = true
  | _ => True

theorem connected_userData {d : List Channel} (h : AllOwned d) {j : Nat} {c : Channel}
    (hc : d[j]? = some c) (hconn : c.connected = true) : c.sock.userData = j + 1 := by
  have hown := h j c hc
  cases hmagic : c.sock.magic with
  | false =>
    rw [hown.free hmagic] at hconn
    exact absurd hconn (by decide)
  | true => rw [hown.userData hmagic, if_pos hconn]

theorem ownConn_iff {d : List Channel} (h : AllOwned d) (i : Nat) (k : Command) :
    OwnConn d i k ↔ k.conId = i + 1 := by
  refine ⟨fun hk => hk.1, fun hk => ⟨hk, fun j c hc hconn hdata => ?_⟩⟩
  have hj := connected_userData h hc hconn
  omega

theorem commands_own_iff {d : List Channel} (h : AllOwned d) (a : Act) :
    (∀ p ∈ commands d a, OwnConn d p.1 p.2) ↔ UsesConnected d a := by
  cases a with
  | call i a =>
    cases hc : d[i]? with
    | none => simp [commands, UsesConnected, hc]
    | some c =>
      have hiff := (h i c hc).commands_iff a
      simp only [commands, UsesConnected, hc, Option.map_some, Option.getD_some, List.mem_map,
        forall_exists_index, and_imp, forall_apply_eq_imp_iff₂, ownConn_iff h, Option.some.injEq,
        forall_eq']
      exact hiff
  | _ => simp [commands, UsesConnected]

/-- In a run over the slots of a device, every command names the connection of
the slot that it is sent for, exactly if every send and every close that gets
to a command finds its slot connected. -/
theorem own_connection_iff (socketNum : Nat) (acts : List Act) :
    Along step (fun d a => ∀ p ∈ commands d a, OwnConn d p.1 p.2) (start socketNum) acts ↔
      Along step UsesConnected (start socketNum) acts :=
  along_iff (fun _ a h => h.step a) (fun _ a h => commands_own_iff h a) acts _
    (allOwned_start socketNum)

/-- Slot 0 connects, and slot 1 is opened. -/
def oneConnected : List Act :=
  [.socket .tcp true, .call 0 .connectBegin,
    .call 0 (.connectEnd ⟨true, some [ascii "connect success ConID=1\r", ascii "OK\r"], none⟩),
    .call 0 .connectReturn, .socket .tcp true]

/-- The close of slot 1, which never connected, deletes the connection of
slot 0. -/
theorem close_deletes_other_connection :
    commands (run step (start 5) oneConnected) (.call 1 (.closeBegin true)) = [(1, .socketDel 1)] ∧
      ((run step (start 5) oneConnected)[0]?.map fun c => (c.connected, c.sock.userData)) =
        some (true, 1) ∧
      ¬ Along step (fun d a => ∀ p ∈ commands d a, OwnConn d p.1 p.2) (start 5)
        (oneConnected ++ [.call 1 (.closeBegin true)]) := by
  refine ⟨by decide, by decide, fun h => ?_⟩
  have hdel := h.2.2.2.2.2.1 (1, .socketDel 1) (by decide)
  exact absurd hdel.1 (by decide)

/-! ## Events -/

/-- Slot `i` exists and its connect succeeded. -/
def connectedAt (d : List Channel) (i : Nat) : Bool := (d[i]?.map Channel.connected).getD false

/-- Slot `i` is allocated and not connected. -/
def pendingAt (d : List Channel) (i : Nat) : Bool :=
  (d[i]?.map fun c => c.sock.magic && !c.connected).getD false

/-- The slot of a ConID, while it is connected. -/
def routeOf (d : List Channel) (conId : Int) : Option Nat :=
  if 0 < conId ∧ connectedAt d (conId.toNat - 1) = true then some (conId.toNat - 1) else none

/-- The ConID of an event. -/
def Act.event : Act → Option Int
  | .socketDown n _ _ _ => some n
  | .socketDisconnect n => some n
  | _ => none

theorem userData_eq_iff {d : List Channel} (h : AllOwned d) {i n : Nat} {c : Channel}
    (hc : d[i]? = some c) (hn : 0 < n) :
    c.sock.userData = n ↔
      (i + 1 = n ∧ connectedAt d i = true) ∨ (i = n ∧ pendingAt d i = true) := by
  have hown := h i c hc
  have hconn : connectedAt d i = c.connected := by rw [connectedAt, hc]; rfl
  have hpend : pendingAt d i = (c.sock.magic && !c.connected) := by rw [pendingAt, hc]; rfl
  rw [hconn, hpend]
  cases hmagic : c.sock.magic with
  | false =>
    rw [hown.free hmagic]
    simp only [Channel.free, Slot.freed]
    simp
    omega
  | true =>
    rw [hown.userData hmagic]
    cases c.connected <;> simp

/-- The search of the driver, on the channels. -/
theorem find_eq_some_iff (d : List Channel) {n : Nat} (hn : 0 < n) (i : Nat) :
    aiwb2FindSocket (sockets d) n = some i ↔
      (∃ c, d[i]? = some c ∧ c.sock.userData = n) ∧
        ∀ j < i, ∀ c, d[j]? = some c → c.sock.userData ≠ n := by
  rw [aiwb2FindSocket, if_neg (by omega), List.findIdx?_eq_some_iff_getElem]
  simp only [sockets, List.length_map, List.getElem_map, beq_iff_eq, Nat.cast_inj]
  constructor
  · intro ⟨hlt, hi, hmin⟩
    refine ⟨⟨d[i], List.getElem?_eq_getElem hlt, hi⟩, fun j hj c hc => ?_⟩
    obtain ⟨hjlt, rfl⟩ := List.getElem?_eq_some_iff.mp hc
    exact hmin j hj
  · intro ⟨⟨c, hc, hi⟩, hmin⟩
    obtain ⟨hlt, rfl⟩ := List.getElem?_eq_some_iff.mp hc
    exact ⟨hlt, hi, fun j hj => hmin j hj d[j] (List.getElem?_eq_getElem _)⟩

theorem exists_of_getD {d : List Channel} {i : Nat} {f : Channel → Bool}
    (h : (d[i]?.map f).getD false = true) : ∃ c, d[i]? = some c := by
  cases hc : d[i]? with
  | none => rw [hc] at h; exact absurd h (by simp)
  | some c => exact ⟨c, rfl⟩

/-- A connected slot is found under its ConID: it comes before the only other
slot that can hold the number. -/
theorem find_connected {d : List Channel} (h : AllOwned d) {n : Nat} (hn : 0 < n)
    (hconn : connectedAt d (n - 1) = true) :
    aiwb2FindSocket (sockets d) n = some (n - 1) := by
  obtain ⟨c, hc⟩ := exists_of_getD hconn
  rw [find_eq_some_iff d hn]
  refine ⟨⟨c, hc, (userData_eq_iff h hc hn).mpr (.inl ⟨by omega, hconn⟩)⟩, fun j hj c' hc' => ?_⟩
  rw [ne_eq, userData_eq_iff h hc' hn]
  omega

/-- Without a connected slot, the event goes to the pending slot above. -/
theorem find_pending {d : List Channel} (h : AllOwned d) {n : Nat} (hn : 0 < n)
    (hconn : connectedAt d (n - 1) = false) (hpend : pendingAt d n = true) :
    aiwb2FindSocket (sockets d) n = some n := by
  obtain ⟨c, hc⟩ := exists_of_getD hpend
  rw [find_eq_some_iff d hn]
  refine ⟨⟨c, hc, (userData_eq_iff h hc hn).mpr (.inr ⟨rfl, hpend⟩)⟩, fun j hj c' hc' => ?_⟩
  rw [ne_eq, userData_eq_iff h hc' hn]
  intro hor
  rcases hor with hj' | hj'
  · obtain rfl : j = n - 1 := by omega
    rw [hconn] at hj'
    exact absurd hj'.2 (by decide)
  · omega

theorem find_none {d : List Channel} (h : AllOwned d) {n : Nat} (hn : 0 < n)
    (hconn : connectedAt d (n - 1) = false) (hpend : pendingAt d n = false) :
    aiwb2FindSocket (sockets d) n = none := by
  rw [Option.eq_none_iff_forall_ne_some]
  intro i hi
  obtain ⟨⟨c, hc, hdata⟩, -⟩ := (find_eq_some_iff d hn i).mp hi
  rcases (userData_eq_iff h hc hn).mp hdata with hi' | hi'
  · obtain rfl : i = n - 1 := by omega
    rw [hconn] at hi'
    exact absurd hi'.2 (by decide)
  · rw [hi'.1, hpend] at hi'
    exact absurd hi'.2 (by decide)

/-- An event for the ConID cannot be taken for the index of the slot above. -/
def NotConfused (d : List Channel) (conId : Int) : Prop :=
  0 < conId → connectedAt d (conId.toNat - 1) = true ∨ pendingAt d conId.toNat = false

theorem find_eq_route_iff {d : List Channel} (h : AllOwned d) (conId : Int) :
    aiwb2FindSocket (sockets d) conId = routeOf d conId ↔ NotConfused d conId := by
  unfold routeOf NotConfused
  by_cases hpos : 0 < conId
  · obtain ⟨n, rfl⟩ := Int.eq_ofNat_of_zero_le hpos.le
    have hn : 0 < n := by omega
    rw [Int.toNat_natCast]
    cases hconn : connectedAt d (n - 1) with
    | true => simp [find_connected h hn hconn, hn]
    | false =>
      cases hpend : pendingAt d n with
      | true => simp [find_pending h hn hconn hpend, hn]
      | false => simp [find_none h hn hconn hpend]
  · simp [aiwb2FindSocket, hpos, not_lt.mp hpos]

/-- In a run over the slots of a device, every event is delivered to the slot
of its ConID while that is connected, and dropped otherwise, exactly if no
event names a slot that is not connected while the slot above it is allocated
and not connected. -/
theorem event_routing_iff (socketNum : Nat) (acts : List Act) :
    Along step (fun d a => ∀ n, a.event = some n → aiwb2FindSocket (sockets d) n = routeOf d n)
        (start socketNum) acts ↔
      Along step (fun d a => ∀ n, a.event = some n → NotConfused d n) (start socketNum) acts :=
  along_iff (fun _ a h => h.step a)
    (fun _ _ h => forall_congr' fun n => imp_congr_right fun _ => find_eq_route_iff h n) acts _
    (allOwned_start socketNum)

/-- Slot 0 connects and is closed and freed, while slot 1 is open. -/
def lateEvent : List Act :=
  oneConnected ++ [.call 0 (.closeBegin true), .call 0 .closeEnd]

/-- Data that arrives late for ConID 1 is queued on slot 1, which never
connected. -/
theorem late_event_reaches_other_slot :
    routeOf (run step (start 5) lateEvent) 1 = none ∧
      aiwb2FindSocket (sockets (run step (start 5) lateEvent)) 1 = some 1 ∧
      ((run step (start 5) (lateEvent ++ [.socketDown 1 22 (ascii "hello") true]))[1]?.map
        Channel.accepted) = some (ascii "hello") ∧
      ¬ Along step (fun d a => ∀ n, a.event = some n →
          aiwb2FindSocket (sockets d) n = routeOf d n) (start 5)
        (lateEvent ++ [.socketDown 1 22 (ascii "hello") true]) := by
  refine ⟨by decide, by decide, by decide, fun h => ?_⟩
  have hev := h.2.2.2.2.2.2.2.1 1 rfl
  exact absurd hev (by decide)

end Hc32Board.AiWb2
