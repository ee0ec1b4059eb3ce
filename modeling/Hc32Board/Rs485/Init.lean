import Hc32Board.CodeLib.Run

/-!
# Initialisation of the RS485 driver

`rs485_init`, statement by statement, with receive interrupts in between.

The function closes the device of an earlier call, finds, configures and opens
it, installs `rs485_rx_ind`, and only then sets up the ring and the semaphore.
Neither is undone before the next call: the device keeps its callback when it
is closed, and `rx_sem` stays in the list of kernel objects.

Two things can go wrong.

* The callback runs before the semaphore exists.  `rt_sem_release` asserts that
  its argument is a semaphore.
* `rt_sem_init` is applied to a semaphore that is in the list.
  `rt_object_init` asserts that it is not.

`init_safe_iff` says when neither happens.  A run ends at the first assertion
that fails; the statement is about the steps up to it.

The contents of the ring and the direction pin are left out.
-/

namespace Hc32Board.Rs485

open Hc32Board.CodeLib

/-- The next statement of `rs485_init`, with its argument. -/
inductive InitPc where
  | idle
  | find (baudrate : Nat)
  | config (baudrate : Nat)
  | openDev (baudrate : Nat)
  | setRxIndicate (baudrate : Nat)
  | rbInit (baudrate : Nat)
  | semInit (baudrate : Nat)
deriving DecidableEq, Repr

structure Port where
  /-- `rs485_dev` is not `NULL`. -/
  dev : Bool
  /-- The device is open with its receive interrupt. -/
  opened : Bool
  /-- The device has `rs485_rx_ind` as its callback. -/
  rxIndicate : Bool
  /-- `rx_rb` is initialised. -/
  rbReady : Bool
  /-- `rx_sem` is initialised and in the list of kernel objects. -/
  semListed : Bool
  baudrate : Nat
  pc : InitPc
  /-- The calls of `rs485_init` that returned `RT_EOK`. -/
  inits : Nat
deriving DecidableEq, Repr

def Port.powerOn : Port := ⟨false, false, false, false, false, 115200, .idle, 0⟩

inductive InitAct where
  | init (baudrate : Nat)
  /-- The outcome of `rt_device_find`, `rt_device_control` or
  `rt_device_open`. -/
  | outcome (ok : Bool)
  /-- A statement without an outcome. -/
  | next
  | rxInterrupt
deriving DecidableEq, Repr

/-- `rs485_init` up to `rt_device_find`. -/
def Port.begin (p : Port) (baudrate : Nat) : Port :=
  if p.dev then { p with dev := false, opened := false, pc := .find baudrate }
  else { p with pc := .find baudrate }

/-- A failed call: `rs485_dev` is `NULL` again. -/
def Port.failed (p : Port) : Port := { p with dev := false, pc := .idle }

def initStep (p : Port) : InitAct → Port
  | .init baudrate => if p.pc = .idle then p.begin baudrate else p
  | .outcome ok =>
    match p.pc with
    | .find b => if ok then { p with dev := true, pc := .config b } else p.failed
    | .config b => if ok then { p with pc := .openDev b } else p.failed
    | .openDev b => if ok then { p with opened := true, pc := .setRxIndicate b } else p.failed
    | _ => p
  | .next =>
    match p.pc with
    | .setRxIndicate b => { p with rxIndicate := true, pc := .rbInit b }
    | .rbInit b => { p with rbReady := true, pc := .semInit b }
    | .semInit b => { p with semListed := true, baudrate := b, pc := .idle, inits := p.inits + 1 }
    | _ => p
  | .rxInterrupt => p

/-- The interrupt runs `rs485_rx_ind`. -/
def Port.callback (p : Port) : Bool := p.opened && p.rxIndicate

/-- The statement `rt_sem_init` is next. -/
def Port.atSemInit (p : Port) : Bool :=
  match p.pc with
  | .semInit _ => true
  | _ => false

/-- The callback is installed, and `rs485_init` has not come to its end. -/
def Port.atSetup (p : Port) : Bool :=
  match p.pc with
  | .rbInit _ | .semInit _ => true
  | _ => false

/-- The callback only runs with the ring and the semaphore, and `rt_sem_init`
is only applied to a semaphore that is not in the list. -/
def InitSafe (p : Port) : InitAct → Prop
  | .rxInterrupt => p.callback = true → p.rbReady = true ∧ p.semListed = true
  | .next => p.atSemInit = true → p.semListed = false
  | _ => True

/-- No interrupt comes while the first call sets up the ring and the semaphore,
and no call gets to `rt_sem_init` after one that returned `RT_EOK`. -/
def InitOnce (p : Port) : InitAct → Prop
  | .rxInterrupt => p.inits = 0 → p.atSetup = false
  | .next => p.atSemInit = true → p.inits = 0
  | _ => True

/-- The callback is about to be installed. -/
def Port.atIndicate (p : Port) : Bool :=
  match p.pc with
  | .setRxIndicate _ => true
  | _ => false

theorem Port.atSetup_of_atSemInit {p : Port} (h : p.atSemInit = true) : p.atSetup = true := by
  rw [Port.atSemInit] at h
  split at h
  · rename_i b hpc
    rw [Port.atSetup, hpc]
  · exact absurd h (by decide)

/-- What the flags say about the calls so far. -/
structure Initialised (p : Port) : Prop where
  sem : p.semListed = true ↔ 0 < p.inits
  ring : 0 < p.inits → p.rbReady = true
  indicate : p.rxIndicate = true → 0 < p.inits ∨ p.atSetup = true
  opened : p.atIndicate = true → p.opened = true
  setup : p.atSetup = true → p.callback = true
  written : p.atSemInit = true → p.rbReady = true

theorem initialised_powerOn : Initialised .powerOn := by
  refine ⟨?_, ?_, ?_, ?_, ?_, ?_⟩ <;> decide

section Steps

variable {p : Port}

/-- A step outside the setup that leaves the flags of the ring and the
semaphore alone. -/
theorem Initialised.outside {p' : Port} (h : Initialised p) (hsem : p'.semListed = p.semListed)
    (hring : p'.rbReady = p.rbReady) (hind : p'.rxIndicate = p.rxIndicate)
    (hinits : p'.inits = p.inits) (hfrom : p.atSetup = false) (hto : p'.atSetup = false)
    (hopened : p'.atIndicate = true → p'.opened = true) : Initialised p' := by
  refine ⟨by rw [hsem, hinits, h.sem], by rw [hring, hinits]; exact h.ring, ?_, hopened, ?_, ?_⟩
  · rw [hind, hinits]
    intro hi
    exact .inl ((h.indicate hi).resolve_right (by rw [hfrom]; decide))
  · exact fun hat => absurd (hto.symm.trans hat) (by decide)
  · intro hat
    rw [Port.atSetup_of_atSemInit hat] at hto
    exact absurd hto (by decide)

theorem Initialised.failed (h : Initialised p) (hfrom : p.atSetup = false) :
    Initialised p.failed :=
  h.outside rfl rfl rfl rfl hfrom rfl nofun

theorem Initialised.outcome (h : Initialised p) (ok : Bool) :
    Initialised (initStep p (.outcome ok)) := by
  rw [initStep]
  split
  · rename_i b hpc
    have hfrom : p.atSetup = false := by rw [Port.atSetup, hpc]
    split_ifs
    · exact h.outside rfl rfl rfl rfl hfrom rfl nofun
    · exact h.failed hfrom
  · rename_i b hpc
    have hfrom : p.atSetup = false := by rw [Port.atSetup, hpc]
    split_ifs
    · exact h.outside rfl rfl rfl rfl hfrom rfl nofun
    · exact h.failed hfrom
  · rename_i b hpc
    have hfrom : p.atSetup = false := by rw [Port.atSetup, hpc]
    split_ifs
    · exact h.outside rfl rfl rfl rfl hfrom rfl fun _ => rfl
    · exact h.failed hfrom
  · exact h

theorem Initialised.next (h : Initialised p) : Initialised (initStep p .next) := by
  rw [initStep]
  split
  · rename_i b hpc
    have hopened := h.opened (by rw [Port.atIndicate, hpc])
    exact ⟨h.sem, h.ring, fun _ => .inr rfl, nofun, fun _ => by simp [Port.callback, hopened],
      nofun⟩
  · rename_i b hpc
    have hcallback := h.setup (by rw [Port.atSetup, hpc])
    exact ⟨h.sem, fun _ => rfl, fun _ => .inr rfl, nofun, fun _ => hcallback, fun _ => rfl⟩
  · rename_i b hpc
    have hring := h.written (by rw [Port.atSemInit, hpc])
    exact ⟨⟨fun _ => Nat.succ_pos _, fun _ => rfl⟩, fun _ => hring, fun _ => .inl (Nat.succ_pos _),
      nofun, nofun, nofun⟩
  · exact h

theorem Initialised.step (h : Initialised p) (a : InitAct) : Initialised (initStep p a) := by
  cases a with
  | init baudrate =>
    rw [initStep]
    split_ifs with hpc
    · have hfrom : p.atSetup = false := by rw [Port.atSetup, hpc]
      rw [Port.begin]
      split_ifs
      · exact h.outside rfl rfl rfl rfl hfrom rfl nofun
      · exact h.outside rfl rfl rfl rfl hfrom rfl nofun
    · exact h
  | outcome ok => exact h.outcome ok
  | next => exact h.next
  | rxInterrupt => exact h

theorem Initialised.safe_iff (h : Initialised p) (a : InitAct) : InitSafe p a ↔ InitOnce p a := by
  cases a with
  | init baudrate => exact Iff.rfl
  | outcome ok => exact Iff.rfl
  | next =>
    have hsem : p.semListed = false ↔ p.inits = 0 := by
      rw [← Bool.not_eq_true, h.sem, Nat.not_lt, Nat.le_zero]
    exact imp_congr_right fun _ => hsem
  | rxInterrupt =>
    constructor
    · intro hsafe hzero
      cases hsetup : p.atSetup with
      | false => rfl
      | true =>
        have hlisted := (hsafe (h.setup hsetup)).2
        rw [h.sem] at hlisted
        omega
    · intro honce hcall
      have hinits : 0 < p.inits := by
        by_contra hzero
        have hind : p.rxIndicate = true := by
          rw [Port.callback, Bool.and_eq_true] at hcall
          exact hcall.2
        rcases h.indicate hind with hpos | hsetup
        · exact hzero hpos
        · rw [honce (by omega)] at hsetup
          exact absurd hsetup (by decide)
      exact ⟨h.ring hinits, h.sem.mpr hinits⟩

end Steps

/-- In every sequence of calls of `rs485_init`, with any outcomes and any
interrupts, the callback only runs with the ring and the semaphore and
`rt_sem_init` is never applied to a listed semaphore, exactly if no interrupt
comes while the first call sets up the ring and the semaphore, and no call gets
to `rt_sem_init` after one that returned `RT_EOK`. -/
theorem init_safe_iff (acts : List InitAct) :
    Along initStep InitSafe .powerOn acts ↔ Along initStep InitOnce .powerOn acts :=
  along_iff (fun _ a h => h.step a) (fun _ a h => h.safe_iff a) acts _ initialised_powerOn

/-- A call whose find, configuration and opening succeed, up to the setup of the
ring. -/
def openPort (baudrate : Nat) : List InitAct :=
  [.init baudrate, .outcome true, .outcome true, .outcome true, .next]

/-- A whole successful call. -/
def initPort (baudrate : Nat) : List InitAct := openPort baudrate ++ [.next, .next]

instance (p : Port) (a : InitAct) : Decidable (InitSafe p a) :=
  match a with
  | .rxInterrupt => inferInstanceAs (Decidable (_ → _))
  | .next => inferInstanceAs (Decidable (_ → _))
  | .init _ => inferInstanceAs (Decidable True)
  | .outcome _ => inferInstanceAs (Decidable True)

/-- A byte that arrives during the first call runs the callback without a
semaphore, and a second call initialises the semaphore again. -/
theorem init_unsafe :
    ¬ Along initStep InitSafe .powerOn (openPort 115200 ++ [.rxInterrupt]) ∧
      ¬ Along initStep InitSafe .powerOn (initPort 115200 ++ initPort 9600) := by
  decide

end Hc32Board.Rs485
