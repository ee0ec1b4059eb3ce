import Hc32Board.FlashParam.TypedStore

/-!
# A manager that is not initialised

The rest of the public functions of `flash_param.c`, and runs of all of them in
any order.  `init_ok` is the guard of every function but one:
`flash_param_foreach` looks at its callback only.

The history flag `down` says that the last `flash_param_init` failed or that
`flash_param_deinit` has succeeded since.  A call is inert if it makes none of
the calls in `Effect` and changes neither the database nor any RAM.

`inert_iff`: every call on a manager that is down is inert, exactly if
`flash_param_foreach` is called then without a callback, or on a manager
without lock functions and for a group without items.  It takes for granted
that no `flash_param_init` is refused by its checks on an initialised manager;
such a call leaves that manager as it was.

The texts that the print functions log are left out.
-/

namespace Hc32Board.FlashParam

open Hc32Board.CodeLib

/-! ## The remaining functions -/

/-- What a function calls.  `fdb_kv_set_default` also stands for the reads that
follow it. -/
inductive Effect where
  | call (c : Call)
  /-- The callback of `flash_param_foreach`, with the key of its item. -/
  | callback (key : String)
  | kvSetDefault
  | kvPrint
  | kvdbDeinit
deriving DecidableEq, Repr

/-- The result of a function.  A `void` function returns `Ret.ok`. -/
structure Report where
  ret : Ret
  mgr : ParamMgr
  effects : List Effect

def Outcome.report (o : Outcome) : Report := ⟨o.ret, o.mgr, o.calls.map .call⟩

/-- The effects of a body between `mgr->lock` and `mgr->unlock`. -/
def ParamMgr.guarded (mgr : ParamMgr) (body : List Effect) : List Effect :=
  (if mgr.lock then [.call .lock] else []) ++ body ++ (if mgr.unlock then [.call .unlock] else [])

/-- The manager with `init_ok` cleared.  The table and the lock functions
stay. -/
def ParamMgr.closed (mgr : ParamMgr) : ParamMgr :=
  { mgr with initOk := false, accepted := nofun }

def flashParamDeinit (mgr : ParamMgr) : Report :=
  if mgr.initOk then ⟨.ok, mgr.closed, [.kvdbDeinit]⟩ else ⟨.fail, mgr, []⟩

/-- `flash_param_foreach`.  `cb` says that the callback is not `NULL`. -/
def flashParamForeach (mgr : ParamMgr) (group : ParamGroup) (cb : Bool) : Report :=
  if cb then
    ⟨.ok, mgr, mgr.guarded
      ((mgr.cells.filter (·.item.group = group)).map fun c => .callback c.key)⟩
  else ⟨.ok, mgr, []⟩

def flashParamPrint (mgr : ParamMgr) : Report :=
  ⟨.ok, mgr, if mgr.initOk then mgr.guarded [.kvPrint] else []⟩

/-- `flash_param_print_group` reads the RAM of the items of a group. -/
def flashParamPrintGroup (mgr : ParamMgr) (_group : ParamGroup) : Report :=
  ⟨.ok, mgr, if mgr.initOk then mgr.guarded [] else []⟩

/-- `flash_param_reset_all` with its call of `fdb_kv_set_default`, the first one
under the lock. -/
def resetAllReport (ft : FloatText) (mgr : ParamMgr) (out : SetDefault)
    (writeOk : String → Bool) : Report :=
  let o := flashParamResetAll ft mgr out writeOk
  let effects := match o.calls with
    | .lock :: calls => .call .lock :: .kvSetDefault :: calls.map .call
    | calls => .kvSetDefault :: calls.map .call
  ⟨o.ret, o.mgr, if mgr.initOk then effects else []⟩

/-! ## Runs of all functions -/

inductive ApiOp where
  | init (flash : Flash) (cells : List Cell) (lock unlock : Bool) (env : InitEnv)
  | deinit
  /-- A call that works on parameters: set, get or reset. -/
  | param (op : StoreOp)
  | resetAll (out : SetDefault) (writeOk : String → Bool)
  | foreach (group : ParamGroup) (cb : Bool)
  | print
  | printGroup (group : ParamGroup)

def apiCall (ft : FloatText) (mgr : ParamMgr) : ApiOp → Report
  | .init flash cells lock unlock env => (flashParamInit ft mgr flash cells lock unlock env).report
  | .deinit => flashParamDeinit mgr
  | .param (.write op) => (writeCall ft mgr op).report
  | .param (.get key buf size) =>
    let r := flashParamGet mgr key buf size
    ⟨r.ret, mgr, r.calls.map .call⟩
  | .resetAll out writeOk => resetAllReport ft mgr out writeOk
  | .foreach group cb => flashParamForeach mgr group cb
  | .print => flashParamPrint mgr
  | .printGroup group => flashParamPrintGroup mgr group

structure Lifecycle where
  mgr : ParamMgr
  /-- The last `flash_param_init` failed, or `flash_param_deinit` has succeeded
  since. -/
  down : Bool

def lifeStep (ft : FloatText) (s : Lifecycle) (op : ApiOp) : Lifecycle :=
  let r := apiCall ft s.mgr op
  match op with
  | .init _ _ _ _ _ => ⟨r.mgr, r.ret != .ok⟩
  | .deinit => ⟨r.mgr, s.down || r.ret == .ok⟩
  | _ => ⟨r.mgr, s.down⟩

def ApiOp.isInit : ApiOp → Bool
  | .init _ _ _ _ _ => true
  | _ => false

/-- On a manager that is down, a call other than `flash_param_init` returns
without effects and changes nothing. -/
def Inert (ft : FloatText) (s : Lifecycle) (op : ApiOp) : Prop :=
  s.down = true → op.isInit = false →
    (apiCall ft s.mgr op).ret ≠ .fault ∧ (apiCall ft s.mgr op).effects = [] ∧
      (apiCall ft s.mgr op).mgr = s.mgr

/-- A `flash_param_init` that its checks refuse finds a manager that is not
initialised. -/
def RefusedOnlyClosed (s : Lifecycle) : ApiOp → Prop
  | .init _ cells lock unlock _ =>
    cells ≠ [] ∧ lock = unlock ∧ tableOk (itemsOf cells) = true ∨ s.mgr.initOk = false
  | _ => True

/-- On a manager that is down, `flash_param_foreach` has no callback, or finds no
lock functions and no item of its group. -/
def ForeachIdle (s : Lifecycle) : ApiOp → Prop
  | .foreach group cb => s.down = true → cb = false ∨
    s.mgr.lock = false ∧ s.mgr.unlock = false ∧ ∀ c ∈ s.mgr.cells, c.item.group ≠ group
  | _ => True

instance (s : Lifecycle) (op : ApiOp) : Decidable (RefusedOnlyClosed s op) := by
  unfold RefusedOnlyClosed
  split <;> infer_instance

instance (s : Lifecycle) (op : ApiOp) : Decidable (ForeachIdle s op) := by
  unfold ForeachIdle
  split <;> infer_instance

/-! ## The guard -/

section Closed

variable {ft : FloatText} {mgr : ParamMgr}

/-- The functions that take a key return at their first check. -/
theorem writeCall_closed (h : mgr.initOk = false) (op : WriteOp) :
    writeCall ft mgr op = ⟨.fail, mgr, []⟩ := by
  cases op with
  | set key val ok => simp [writeCall, flashParamSet, h]
  | setBlob key val valLen ok => simp [writeCall, flashParamSetBlob, h]
  | reset key ok => simp [writeCall, flashParamReset, h]
  | groupReset group writeOk => simp [writeCall, flashParamGroupReset, h]

theorem flashParamGet_closed (h : mgr.initOk = false) (key : Option String) (buf : Option Bytes)
    (size : Option Nat) : flashParamGet mgr key buf size = ⟨.fail, buf, size, []⟩ := by
  simp [flashParamGet, h]

theorem guarded_eq_nil_iff (body : List Effect) :
    mgr.guarded body = [] ↔ mgr.lock = false ∧ mgr.unlock = false ∧ body = [] := by
  unfold ParamMgr.guarded
  cases mgr.lock <;> cases mgr.unlock <;> simp

/-- `flash_param_foreach` has no effect without a callback, or without lock
functions and items. -/
theorem foreach_effects_iff (group : ParamGroup) (cb : Bool) :
    (flashParamForeach mgr group cb).effects = [] ↔ cb = false ∨
      mgr.lock = false ∧ mgr.unlock = false ∧ ∀ c ∈ mgr.cells, c.item.group ≠ group := by
  cases cb with
  | false => simp [flashParamForeach]
  | true =>
    show mgr.guarded _ = [] ↔ _
    rw [guarded_eq_nil_iff, List.map_eq_nil_iff, List.filter_eq_nil_iff]
    simp

/-- On a manager that is not initialised, only `flash_param_foreach` can do
something. -/
theorem inert_iff_of_closed {s : Lifecycle} (h : s.down = true → s.mgr.initOk = false)
    (op : ApiOp) : Inert ft s op ↔ ForeachIdle s op := by
  cases op with
  | init flash cells lock unlock env => exact ⟨fun _ => trivial, fun _ _ hop => by cases hop⟩
  | deinit =>
    refine ⟨fun _ => trivial, fun _ hdown _ => ?_⟩
    simp [apiCall, flashParamDeinit, h hdown]
  | param op =>
    refine ⟨fun _ => trivial, fun _ hdown _ => ?_⟩
    cases op with
    | write op => simp [apiCall, Outcome.report, writeCall_closed (h hdown) op]
    | get key buf size => simp [apiCall, flashParamGet_closed (h hdown)]
  | resetAll out writeOk =>
    refine ⟨fun _ => trivial, fun _ hdown _ => ?_⟩
    simp [apiCall, resetAllReport, flashParamResetAll, h hdown]
  | foreach group cb =>
    constructor
    · intro hinert hdown
      exact (foreach_effects_iff group cb).mp (hinert hdown rfl).2.1
    · intro hidle hdown _
      refine ⟨?_, (foreach_effects_iff group cb).mpr (hidle hdown), ?_⟩
      · cases cb <;> simp [apiCall, flashParamForeach]
      · cases cb <;> rfl
  | print =>
    refine ⟨fun _ => trivial, fun _ hdown _ => ?_⟩
    simp [apiCall, flashParamPrint, h hdown]
  | printGroup group =>
    refine ⟨fun _ => trivial, fun _ hdown _ => ?_⟩
    simp [apiCall, flashParamPrintGroup, h hdown]

end Closed

/-! ## The flag and the history -/

/-- A `flash_param_init` that gets through its checks and fails leaves a manager
that is not initialised. -/
theorem flashParamInit_closed {ft : FloatText} {mgr : ParamMgr} {flash : Flash} {cells : List Cell}
    {lock unlock : Bool} {env : InitEnv}
    (hchecks : cells ≠ [] ∧ lock = unlock ∧ tableOk (itemsOf cells) = true ∨ mgr.initOk = false)
    (h : (flashParamInit ft mgr flash cells lock unlock env).ret ≠ .ok) :
    (flashParamInit ft mgr flash cells lock unlock env).mgr.initOk = false := by
  unfold flashParamInit at h ⊢
  split_ifs at h ⊢ with hnil hlocks htable hmalloc
  · exact hchecks.resolve_left fun hc => hc.1 hnil
  · exact hchecks.resolve_left fun hc => hlocks hc.2.1
  · rfl
  · cases hdb : fdbKvdbInit flash (cells.map defNode) env with
    | error r => rfl
    | ok db =>
      simp only [hdb] at h ⊢
      exact decide_eq_false h
  · exact hchecks.resolve_left fun hc => htable hc.2.2

theorem resetAll_initOk {ft : FloatText} {mgr : ParamMgr} {out : SetDefault}
    {writeOk : String → Bool} :
    (flashParamResetAll ft mgr out writeOk).mgr.initOk = mgr.initOk := by
  unfold flashParamResetAll
  split_ifs
  · rfl
  · cases fdbKvSetDefault mgr.kvdb (mgr.cells.map defNode) out <;> rfl

/-- A manager that is down is not initialised. -/
theorem down_closed_step {ft : FloatText} {s : Lifecycle}
    (h : s.down = true → s.mgr.initOk = false) (op : ApiOp) (hop : RefusedOnlyClosed s op) :
    (lifeStep ft s op).down = true → (lifeStep ft s op).mgr.initOk = false := by
  cases op with
  | init flash cells lock unlock env =>
    intro hdown
    exact flashParamInit_closed hop (by simpa [lifeStep, apiCall, Outcome.report] using hdown)
  | deinit =>
    intro hdown
    by_cases hinit : s.mgr.initOk = true
    · simp [lifeStep, apiCall, flashParamDeinit, hinit, ParamMgr.closed]
    · simp [lifeStep, apiCall, flashParamDeinit, hinit]
  | param op =>
    intro hdown
    have hclosed := h hdown
    cases op with
    | write op =>
      show (writeCall ft s.mgr op).mgr.initOk = false
      rw [writeCall_closed hclosed]
      exact hclosed
    | get key buf size => exact hclosed
  | resetAll out writeOk => exact fun hdown => resetAll_initOk.trans (h hdown)
  | foreach group cb =>
    intro hdown
    cases cb <;> exact h hdown
  | print => exact h
  | printGroup group => exact h

/-- Whatever functions are called in whatever order, from any manager: every call
on a manager that is down is inert exactly if every `flash_param_foreach` then
has no callback or finds nothing to do.  No `flash_param_init` may be refused by
its checks on an initialised manager. -/
theorem inert_iff (ft : FloatText) (mgr : ParamMgr) (ops : List ApiOp)
    (h : Along (lifeStep ft) RefusedOnlyClosed ⟨mgr, false⟩ ops) :
    Along (lifeStep ft) (Inert ft) ⟨mgr, false⟩ ops ↔
      Along (lifeStep ft) ForeachIdle ⟨mgr, false⟩ ops := by
  refine along_iff_of_keeps (I := fun s => s.down = true → s.mgr.initOk = false) ?_ ?_ ops _ nofun h
  · exact fun s op hs _ => inert_iff_of_closed hs op
  · exact fun s op hs hop _ => down_closed_step hs op hop

/-- The manager before the first call. -/
def fresh : Lifecycle := ⟨.blank .blank [], false⟩

def baudCells : List Cell := [(paramInt "baud" 9600 4 .comm).powerOn]

/-- Initialise with lock functions, deinitialise, and go on with calls that find
the manager down. -/
def closedRun : List ApiOp :=
  [.init (.holds fun _ => none) baudCells true true allOk, .deinit,
    .param (.write (.set (some "baud") (some [1, 2, 3, 4]) true)), .print, .foreach .comm false,
    .deinit]

theorem inert_closedRun :
    Along (lifeStep noFloat) (Inert noFloat) fresh closedRun :=
  (inert_iff noFloat (.blank .blank []) closedRun (by decide)).mpr (by decide)

/-- The database opens, and the write of the default fails. -/
def noWrites : InitEnv := ⟨true, true, .formatted fun _ => true, fun _ => false⟩

/-- After a `flash_param_init` that failed at an item, and after
`flash_param_deinit`, `flash_param_foreach` calls the lock functions and the
callback.  After a `flash_param_init` that its checks refuse, an initialised
manager still writes. -/
theorem foreach_while_down :
    let failed := run (lifeStep noFloat) fresh
      [.init (.holds fun _ => none) baudCells true true noWrites]
    let closed := run (lifeStep noFloat) fresh
      [.init (.holds fun _ => none) baudCells true true allOk, .deinit]
    let refused := run (lifeStep noFloat) fresh
      [.init (.holds fun _ => none) baudCells true true allOk, .init .blank [] true true allOk]
    (failed.down = true ∧ (apiCall noFloat failed.mgr (.foreach .comm true)).effects =
      [.call .lock, .callback "baud", .call .unlock]) ∧
    (closed.down = true ∧ (apiCall noFloat closed.mgr (.foreach .comm true)).effects =
      [.call .lock, .callback "baud", .call .unlock]) ∧
    refused.down = true ∧
      (apiCall noFloat refused.mgr (.param (.write (.reset (some "baud") false)))).effects =
        [.call .lock, .call (.kvSet "baud" (ascii "9600") false), .call .unlock] := by
  decide

end Hc32Board.FlashParam
