import AdblockCompiler.Exceptions
import AdblockCompiler.Pipeline

namespace AdblockCompiler.Hooks
open JsText Config Exceptions

structure TransformationHookContext where
  name : TransformationType
  type : TransformationType
  ruleCount : Nat
  timestamp : Int

structure AfterTransformContext extends TransformationHookContext where
  inputCount : Nat
  outputCount : Nat
  durationMs : Int

structure TransformErrorContext (ε : Type) extends TransformationHookContext where
  error : ε

structure ProgressEvent where
  current : Nat
  total : Nat
  type : TransformationType

-- What hooks share, and how many error hooks have been called: nothing reads
-- the number.
structure World (σ : Type) where
  own : σ
  called : Nat := 0

-- A hook may throw, and may change what the hooks share.
abbrev Hook (ε σ : Type) := Computation ε σ Unit

structure TransformationHookManager (ε σ : Type) where
  beforeHooks : List (TransformationHookContext → Hook ε σ)
  afterHooks : List (AfterTransformContext → Hook ε σ)
  errorHooks : List (TransformErrorContext ε → Hook ε σ)

def NoOpHookManager : TransformationHookManager ε σ := ⟨[],[],[]⟩

-- applyFilters are the exclusions and the inclusions of the configuration;
-- emitProgress is safe, toError makes an Error of what is none.
structure TransformationPipeline (ε σ : Type) where
  applyFilters : List Text → Except ε (List Text)
  registry : TransformationType → Option (List Text → Except ε (List Text))
  emitProgress : ProgressEvent → σ → σ
  dateNow : σ → Int
  performanceNow : σ → Int
  toError : ε → ε
  hookManager : TransformationHookManager ε σ

variable {ε σ : Type}

def settle (outcome : Except ε α) : Computation ε (World σ) α := ExceptT.mk fun w => (outcome,w)

def World.await (hook : Hook ε σ) : Computation ε (World σ) Unit := ExceptT.mk fun w =>
  let done := hook.from w.own
  (done.1,{ w with own := done.2 })

def World.awaitCounted (hook : Hook ε σ) : Computation ε (World σ) Unit := ExceptT.mk fun w =>
  let done := hook.from w.own
  (done.1,⟨done.2,w.called+1⟩)

-- for (const hook of hooks) await hook(context)
def awaitAll (await : Hook ε σ → Computation ε (World σ) Unit) : List (Hook ε σ) → Computation ε (World σ) Unit
  | [] => pure ()
  | hook :: rest => await hook >>= fun _ => awaitAll await rest

def TransformationHookManager.executeBeforeHooks (manager : TransformationHookManager ε σ) (context : TransformationHookContext) :
    Computation ε (World σ) Unit := awaitAll World.await (manager.beforeHooks.map (· context))

def TransformationHookManager.executeAfterHooks (manager : TransformationHookManager ε σ) (context : AfterTransformContext) :
    Computation ε (World σ) Unit := awaitAll World.await (manager.afterHooks.map (· context))

def TransformationHookManager.executeErrorHooks (manager : TransformationHookManager ε σ) (context : TransformErrorContext ε) :
    Computation ε (World σ) Unit := awaitAll World.awaitCounted (manager.errorHooks.map (· context))

def TransformationHookManager.hasHooks (manager : TransformationHookManager ε σ) : Bool :=
  0 < manager.beforeHooks.length || 0 < manager.afterHooks.length || 0 < manager.errorHooks.length

section Transform
variable (p : TransformationPipeline ε σ)

-- The context of the hooks before, with the start time.
def enter (type : TransformationType) (rules : List Text) : Computation ε (World σ) (TransformationHookContext × Int) := do
  let w ← get
  let beforeContext : TransformationHookContext := ⟨type,type,rules.length,p.dateNow w.own⟩
  p.hookManager.executeBeforeHooks beforeContext
  pure (beforeContext,p.performanceNow w.own)

def leave (type : TransformationType) (inputCount : Nat) (startTime : Int) (transformed : List Text) : Computation ε (World σ) Unit := do
  let w ← get
  p.hookManager.executeAfterHooks
    ⟨⟨type,type,transformed.length,p.dateNow w.own⟩,inputCount,transformed.length,p.performanceNow w.own-startTime⟩

-- The error hooks, and then the error again.
def failed (context : TransformationHookContext) (error : ε) : Computation ε (World σ) (List Text) := do
  p.hookManager.executeErrorHooks ⟨context,p.toError error⟩
  throw error

def hookPath (type : TransformationType) (transformation : List Text → Except ε (List Text)) (rules : List Text) :
    Computation ε (World σ) (List Text) := do
  let entered ← enter p type rules
  let transformed ← tryCatch (settle (transformation rules)) (failed p entered.1)
  leave p type rules.length entered.2 transformed
  pure transformed

def announce (event : ProgressEvent) : Computation ε (World σ) Unit := modify fun w => { w with own := p.emitProgress event w.own }

def applyOne (total i : Nat) (type : TransformationType) (transformation : List Text → Except ε (List Text)) (rules : List Text) :
    Computation ε (World σ) (List Text) := do
  announce p ⟨i+1,total,type⟩
  if p.hookManager.hasHooks then hookPath p type transformation rules else settle (transformation rules)

def applyTransformations (total : Nat) : Nat → List TransformationType → List Text → Computation ε (World σ) (List Text)
  | _,[],transformed => pure transformed
  | i,type :: rest,transformed =>
    match p.registry type with
    | none => applyTransformations total (i+1) rest transformed
    | some transformation => do
      let next ← applyOne p total i type transformation transformed
      applyTransformations total (i+1) rest next

def transform (rules : List Text) (transformations : List TransformationType) : Computation ε (World σ) (List Text) := do
  let transformed ← settle (p.applyFilters rules)
  let ordered := Pipeline.getOrderedTransformations transformations
  applyTransformations p ordered.length 0 ordered transformed

end Transform

section Awaiting

theorem await_from (hook : Hook ε σ) (w : World σ) :
    (World.await hook).from w = ((hook.from w.own).1,{ w with own := (hook.from w.own).2 }) := rfl

theorem awaitCounted_from (hook : Hook ε σ) (w : World σ) :
    (World.awaitCounted hook).from w = ((hook.from w.own).1,⟨(hook.from w.own).2,w.called+1⟩) := rfl

theorem settle_from (outcome : Except ε α) (w : World σ) : (settle outcome : Computation ε (World σ) α).from w = (outcome,w) := rfl

theorem awaitAll_quiet (hooks : List (Hook ε σ)) (quiet : ∀ hook ∈ hooks, ∀ s, Answers hook s) (w : World σ) :
    ∃ t, (awaitAll World.await hooks).from w = (.ok (),t) ∧ t.called = w.called := by
  induction hooks generalizing w with
  | nil => exact ⟨w,rfl,rfl⟩
  | cons hook rest ih =>
    obtain ⟨own,others⟩ := List.forall_mem_cons.mp quiet
    obtain ⟨_,s,settled⟩ := own w.own
    have first : (World.await hook).from w = (.ok (),{ w with own := s }) := by rw [await_from,settled]
    obtain ⟨t,done,same⟩ := ih others { w with own := s }
    exact ⟨t,(bind_ok first).trans done,same⟩

-- Each hook but the last resolves; the last may throw the error itself.
def Tolerates (error : ε) : List (Hook ε σ) → σ → Prop
  | [],_ => True
  | hook :: rest,s =>
    match hook.from s with
    | (.ok _,t) => Tolerates error rest t
    | (.error thrown,_) => rest = [] ∧ thrown = error

-- The error gets through with all hooks called exactly where they tolerate it.
theorem errors_exact (error : ε) (hooks : List (Hook ε σ)) (w : World σ) :
    ((awaitAll World.awaitCounted hooks >>= fun _ => (throw error : Computation ε (World σ) α)).from w).1 = .error error ∧
        ((awaitAll World.awaitCounted hooks >>= fun _ => (throw error : Computation ε (World σ) α)).from w).2.called =
          w.called+hooks.length ↔
      Tolerates error hooks w.own := by
  induction hooks generalizing w with
  | nil =>
    have raised : (awaitAll World.awaitCounted ([] : List (Hook ε σ)) >>= fun _ => (throw error : Computation ε (World σ) α)).from w =
        (.error error,w) := rfl
    rw [raised]
    exact ⟨fun _ => trivial,fun _ => ⟨rfl,rfl⟩⟩
  | cons hook rest ih =>
    have counted := awaitCounted_from hook w
    unfold Tolerates
    cases settled : hook.from w.own with
    | mk outcome s =>
      rw [settled] at counted
      cases outcome with
      | ok value =>
        have through : (awaitAll World.awaitCounted (hook :: rest) >>= fun _ => (throw error : Computation ε (World σ) α)).from w =
            (awaitAll World.awaitCounted rest >>= fun _ => (throw error : Computation ε (World σ) α)).from ⟨s,w.called+1⟩ := by
          rw [awaitAll,bind_assoc]
          exact bind_ok counted
        have later := ih ⟨s,w.called+1⟩
        have count : w.called+1+rest.length = w.called+(rest.length+1) := by omega
        dsimp only at later
        rw [count] at later
        rw [through,List.length_cons]
        exact later
      | error thrown =>
        have out : (awaitAll World.awaitCounted (hook :: rest) >>= fun _ => (throw error : Computation ε (World σ) α)).from w =
            (.error thrown,⟨s,w.called+1⟩) := by
          rw [awaitAll,bind_assoc]
          exact bind_error counted
        rw [out,List.length_cons]
        dsimp only
        rw [Except.error.injEq]
        constructor
        · intro both
          exact ⟨List.length_eq_zero_iff.mp (by omega),both.1⟩
        · intro both
          rw [both.1]
          exact ⟨both.2,rfl⟩

end Awaiting

-- Hooks before and after that do not throw.
structure Quiet (manager : TransformationHookManager ε σ) : Prop where
  before : ∀ hook ∈ manager.beforeHooks, ∀ context s, Answers (hook context) s
  after : ∀ hook ∈ manager.afterHooks, ∀ context s, Answers (hook context) s

section Runs
variable (p : TransformationPipeline ε σ)

-- What the transformations make of the rules by themselves.
def outcome : List TransformationType → List Text → Except ε (List Text)
  | [],transformed => .ok transformed
  | type :: rest,transformed =>
    match p.registry type with
    | none => outcome rest transformed
    | some transformation => (transformation transformed).bind (outcome rest)

theorem enter_quiet (quiet : Quiet p.hookManager) (type : TransformationType) (rules : List Text) (w : World σ) :
    ∃ entered t, (enter p type rules).from w = (.ok entered,t) ∧ t.called = w.called := by
  have hooks : ∀ hook ∈ p.hookManager.beforeHooks.map (· ⟨type,type,rules.length,p.dateNow w.own⟩), ∀ s, Answers hook s := by
    intro hook member
    obtain ⟨one,inside,rfl⟩ := List.mem_map.mp member
    exact quiet.before one inside _
  obtain ⟨t,done,same⟩ := awaitAll_quiet _ hooks w
  exact ⟨_,t,bind_ok done,same⟩

theorem leave_quiet (quiet : Quiet p.hookManager) (type : TransformationType) (inputCount : Nat) (startTime : Int)
    (transformed : List Text) (w : World σ) :
    ∃ t, (leave p type inputCount startTime transformed).from w = (.ok (),t) ∧ t.called = w.called := by
  apply awaitAll_quiet
  intro hook member
  obtain ⟨one,inside,rfl⟩ := List.mem_map.mp member
  exact quiet.after one inside _

theorem hookPath_ok (quiet : Quiet p.hookManager) (type : TransformationType) (done : transformation rules = .ok result) (w : World σ) :
    ∃ t, (hookPath p type transformation rules).from w = (.ok result,t) ∧ t.called = w.called := by
  obtain ⟨entered,s,before,same⟩ := enter_quiet p quiet type rules w
  obtain ⟨t,after,kept⟩ := leave_quiet p quiet type rules.length entered.2 result s
  have settled : (tryCatch (settle (transformation rules)) (failed p entered.1)).from s = (.ok result,s) := by
    apply catch_ok
    rw [done,settle_from]
  exact ⟨t,(bind_ok before).trans ((bind_ok settled).trans (bind_ok after)),kept.trans same⟩

theorem failed_throws (context : TransformationHookContext) (error : ε) (w : World σ) :
    ∃ other t, (failed p context error).from w = (.error other,t) := by
  cases settled : (failed p context error).from w with
  | mk outcome t =>
    cases outcome with
    | error other => exact ⟨other,t,rfl⟩
    | ok value =>
      obtain ⟨_,_,-,raised⟩ := bind_settled.mp settled
      cases raised

-- Where the transformation throws, the error hooks are what is left to run.
theorem hookPath_error (type : TransformationType) (thrown : transformation rules = .error error)
    (before : (enter p type rules).from w = (.ok entered,s)) :
    (hookPath p type transformation rules).from w = (failed p entered.1 error).from s := by
  have settled : (settle (transformation rules) : Computation ε (World σ) (List Text)).from s = (.error error,s) := by
    rw [thrown,settle_from]
  obtain ⟨other,t,raised⟩ := failed_throws p entered.1 error s
  have caught : (tryCatch (settle (transformation rules)) (failed p entered.1)).from s = (.error other,t) :=
    (catch_error settled).trans raised
  exact (bind_ok before).trans ((bind_error caught).trans raised.symm)

theorem announce_from (event : ProgressEvent) (w : World σ) :
    (announce p event : Computation ε (World σ) Unit).from w = (.ok (),{ w with own := p.emitProgress event w.own }) := rfl

-- The place where a transformation throws, with the context of its hooks and
-- the world in which they are called.
inductive FailsAt (total : Nat) : Nat → List TransformationType → List Text → World σ →
    TransformationHookContext → ε → World σ → Prop where
  | missing (absent : p.registry type = none) (later : FailsAt total (i+1) rest rules w context error t) :
      FailsAt total i (type :: rest) rules w context error t
  | here {i type transformation rest rules w entered error t} (found : p.registry type = some transformation) (thrown : transformation rules = .error error)
      (before : (enter p type rules).from { w with own := p.emitProgress ⟨i+1,total,type⟩ w.own } = (.ok entered,t)) :
      FailsAt total i (type :: rest) rules w entered.1 error t
  | later {i type transformation rest rules w next s context error t} (found : p.registry type = some transformation)
      (settled : (applyOne p total i type transformation rules).from w = (.ok next,s))
      (later : FailsAt total (i+1) rest next s context error t) : FailsAt total i (type :: rest) rules w context error t

theorem applyOne_ok (quiet : Quiet p.hookManager) (total i : Nat) (type : TransformationType)
    (done : transformation rules = .ok result) (w : World σ) :
    ∃ t, (applyOne p total i type transformation rules).from w = (.ok result,t) ∧ t.called = w.called := by
  have announced := announce_from p ⟨i+1,total,type⟩ w
  cases hooks : p.hookManager.hasHooks with
  | true =>
    obtain ⟨t,settled,same⟩ := hookPath_ok p quiet type done { w with own := p.emitProgress ⟨i+1,total,type⟩ w.own }
    refine ⟨t,(bind_ok announced).trans ?_,same⟩
    rw [hooks,if_pos rfl]
    exact settled
  | false =>
    refine ⟨{ w with own := p.emitProgress ⟨i+1,total,type⟩ w.own },(bind_ok announced).trans ?_,rfl⟩
    rw [hooks,if_neg Bool.false_ne_true,done,settle_from]

theorem applyOne_error (total i : Nat) (type : TransformationType) (thrown : transformation rules = .error error)
    (hooks : p.hookManager.hasHooks = true)
    (before : (enter p type rules).from { w with own := p.emitProgress ⟨i+1,total,type⟩ w.own } = (.ok entered,s)) :
    (applyOne p total i type transformation rules).from w = (failed p entered.1 error).from s := by
  refine (bind_ok (announce_from p ⟨i+1,total,type⟩ w)).trans ?_
  rw [hooks,if_pos rfl]
  exact hookPath_error p type thrown before

theorem applyOne_plain (none_ : p.hookManager.hasHooks = false) (total i : Nat) (type : TransformationType)
    (transformation : List Text → Except ε (List Text)) (rules : List Text) (w : World σ) :
    (applyOne p total i type transformation rules).from w =
      (transformation rules,{ w with own := p.emitProgress ⟨i+1,total,type⟩ w.own }) := by
  refine (bind_ok (announce_from p ⟨i+1,total,type⟩ w)).trans ?_
  rw [none_,if_neg Bool.false_ne_true,settle_from]

theorem run_missing (absent : p.registry type = none) (total i : Nat) (rest : List TransformationType) (rules : List Text) :
    applyTransformations p total i (type :: rest) rules = applyTransformations p total (i+1) rest rules := by
  rw [applyTransformations,absent]

theorem run_found (found : p.registry type = some transformation) (total i : Nat) (rest : List TransformationType) (rules : List Text) :
    applyTransformations p total i (type :: rest) rules =
      applyOne p total i type transformation rules >>= applyTransformations p total (i+1) rest := by
  rw [applyTransformations,found]

theorem outcome_missing (absent : p.registry type = none) (rest : List TransformationType) (rules : List Text) :
    outcome p (type :: rest) rules = outcome p rest rules := by
  rw [outcome,absent]

theorem outcome_found (found : p.registry type = some transformation) (rest : List TransformationType) (rules : List Text) :
    outcome p (type :: rest) rules = (transformation rules).bind (outcome p rest) := by
  rw [outcome,found]

-- Without hooks the run is that of the transformations, and nothing is called.
theorem run_plain (none_ : p.hookManager.hasHooks = false) (total i : Nat) (types : List TransformationType) (rules : List Text)
    (w : World σ) : ∃ t, (applyTransformations p total i types rules).from w = (outcome p types rules,t) ∧ t.called = w.called := by
  induction types generalizing i rules w with
  | nil => exact ⟨w,rfl,rfl⟩
  | cons type rest ih =>
    cases found : p.registry type with
    | none =>
      rw [run_missing p found,outcome_missing p found]
      exact ih (i+1) rules w
    | some transformation =>
      have one := applyOne_plain p none_ total i type transformation rules w
      rw [run_found p found,outcome_found p found]
      cases done : transformation rules with
      | ok next =>
        rw [done] at one
        obtain ⟨t,settled,same⟩ := ih (i+1) next { w with own := p.emitProgress ⟨i+1,total,type⟩ w.own }
        exact ⟨t,(bind_ok one).trans settled,same⟩
      | error error =>
        rw [done] at one
        exact ⟨_,bind_error one,rfl⟩

-- With hooks it is that too as long as nothing is thrown.
theorem run_ok (quiet : Quiet p.hookManager) (total i : Nat) (done : outcome p types rules = .ok result) (w : World σ) :
    ∃ t, (applyTransformations p total i types rules).from w = (.ok result,t) ∧ t.called = w.called := by
  induction types generalizing i rules w with
  | nil => exact ⟨w,congrArg (·,w) done,rfl⟩
  | cons type rest ih =>
    cases found : p.registry type with
    | none =>
      rw [outcome_missing p found] at done
      rw [run_missing p found]
      exact ih (i+1) done w
    | some transformation =>
      rw [outcome_found p found] at done
      cases one : transformation rules with
      | error error =>
        rw [one] at done
        cases done
      | ok next =>
        rw [one] at done
        obtain ⟨s,first,same⟩ := applyOne_ok p quiet total i type one w
        obtain ⟨t,settled,kept⟩ := ih (i+1) done s
        rw [run_found p found]
        exact ⟨t,(bind_ok first).trans settled,kept.trans same⟩

-- A run that fails ends with the error hooks.
theorem run_fails (fails : FailsAt p total i types rules w context error t) (quiet : Quiet p.hookManager)
    (hooks : p.hookManager.hasHooks = true) :
    outcome p types rules = .error error ∧
      (applyTransformations p total i types rules).from w = (failed p context error).from t ∧ t.called = w.called := by
  induction fails with
  | missing absent _ ih =>
    rw [outcome_missing p absent,run_missing p absent]
    exact ih
  | @here i type transformation rest rules w entered error t found thrown before =>
    rw [outcome_found p found,run_found p found,thrown]
    obtain ⟨other,u,raised⟩ := failed_throws p entered.1 error t
    have one := (applyOne_error p total i type thrown hooks before).trans raised
    obtain ⟨_,_,again,same⟩ := enter_quiet p quiet type rules { w with own := p.emitProgress ⟨i+1,total,type⟩ w.own }
    obtain ⟨-,rfl⟩ := Prod.mk.inj (again.symm.trans before)
    exact ⟨rfl,(bind_error one).trans raised.symm,same⟩
  | @later i type transformation rest rules w next s context error t found settled _ ih =>
    obtain ⟨failing,run,same⟩ := ih
    rw [outcome_found p found,run_found p found]
    cases one : transformation rules with
    | ok result =>
      obtain ⟨u,first,kept⟩ := applyOne_ok p quiet total i type one w
      obtain ⟨value,rfl⟩ := Prod.mk.inj (first.symm.trans settled)
      obtain rfl := Except.ok.inj value
      exact ⟨failing,(bind_ok settled).trans run,same.trans kept⟩
    | error other =>
      obtain ⟨entered,u,before,-⟩ := enter_quiet p quiet type rules { w with own := p.emitProgress ⟨i+1,total,type⟩ w.own }
      obtain ⟨_,_,raised⟩ := failed_throws p entered.1 other u
      have out := ((applyOne_error p total i type one hooks before).trans raised).symm.trans settled
      cases out

theorem run_error (quiet : Quiet p.hookManager) (total i : Nat) (thrown : outcome p types rules = .error error) (w : World σ) :
    ∃ context t, FailsAt p total i types rules w context error t := by
  induction types generalizing i rules w with
  | nil => cases thrown
  | cons type rest ih =>
    cases found : p.registry type with
    | none =>
      rw [outcome_missing p found] at thrown
      obtain ⟨context,t,later⟩ := ih (i+1) thrown w
      exact ⟨context,t,.missing found later⟩
    | some transformation =>
      rw [outcome_found p found] at thrown
      cases one : transformation rules with
      | error other =>
        rw [one] at thrown
        obtain rfl := Except.error.inj thrown
        obtain ⟨entered,t,before,-⟩ := enter_quiet p quiet type rules { w with own := p.emitProgress ⟨i+1,total,type⟩ w.own }
        exact ⟨entered.1,t,.here found one before⟩
      | ok next =>
        rw [one] at thrown
        obtain ⟨s,first,-⟩ := applyOne_ok p quiet total i type one w
        obtain ⟨context,t,later⟩ := ih (i+1) thrown s
        exact ⟨context,t,.later found first later⟩

end Runs

section Observers
variable (p : TransformationPipeline ε σ)

-- A transformation of the requested ones throws, on the rules that the filters let pass.
def Fails (rules : List Text) (transformations : List TransformationType) (w : World σ) (context : TransformationHookContext) (error : ε)
    (t : World σ) : Prop :=
  let ordered := Pipeline.getOrderedTransformations transformations
  ∃ kept, p.applyFilters rules = .ok kept ∧ FailsAt p ordered.length 0 ordered kept w context error t

theorem transform_plain (none_ : p.hookManager.hasHooks = false) (rules : List Text) (transformations : List TransformationType)
    (w : World σ) :
    ∃ t, (transform p rules transformations).from w =
      ((p.applyFilters rules).bind (outcome p (Pipeline.getOrderedTransformations transformations)),t) ∧ t.called = w.called := by
  unfold transform
  cases filtered : p.applyFilters rules with
  | error error => exact ⟨w,bind_error rfl,rfl⟩
  | ok kept =>
    obtain ⟨t,run,same⟩ := run_plain p none_ (Pipeline.getOrderedTransformations transformations).length 0
      (Pipeline.getOrderedTransformations transformations) kept w
    exact ⟨t,(bind_ok rfl).trans run,same⟩

theorem outcome_hooks (manager : TransformationHookManager ε σ) (types : List TransformationType) (rules : List Text) :
    outcome { p with hookManager := manager } types rules = outcome p types rules := by
  induction types generalizing rules with
  | nil => rfl
  | cons type rest ih =>
    unfold outcome
    dsimp only
    cases p.registry type with
    | none => exact ih rules
    | some transformation =>
      dsimp only
      rw [funext ih]

-- What a run ends with: the error hooks where a transformation throws, else what
-- the transformations make of the rules.
theorem transform_fails (quiet : Quiet p.hookManager) (hooks : p.hookManager.hasHooks = true)
    (fails : Fails p rules transformations w context error t) :
    (p.applyFilters rules).bind (outcome p (Pipeline.getOrderedTransformations transformations)) = .error error ∧
      (transform p rules transformations).from w = (failed p context error).from t ∧ t.called = w.called := by
  obtain ⟨kept,filtered,at_⟩ := fails
  obtain ⟨thrown,run,same⟩ := run_fails p at_ quiet hooks
  unfold transform
  rw [filtered]
  exact ⟨thrown,(bind_ok rfl).trans run,same⟩

theorem transform_settles (quiet : Quiet p.hookManager) (w : World σ)
    (free : ∀ context error t, ¬Fails p rules transformations w context error t) :
    ((transform p rules transformations).from w).1 =
      (p.applyFilters rules).bind (outcome p (Pipeline.getOrderedTransformations transformations)) := by
  unfold transform
  cases filtered : p.applyFilters rules with
  | error error => exact congrArg Prod.fst (bind_error rfl)
  | ok kept =>
    cases done : outcome p (Pipeline.getOrderedTransformations transformations) kept with
    | ok result =>
      obtain ⟨t,run,-⟩ := run_ok p quiet (Pipeline.getOrderedTransformations transformations).length 0 done w
      exact (congrArg Prod.fst ((bind_ok rfl).trans run)).trans done.symm
    | error error =>
      obtain ⟨context,t,at_⟩ := run_error p quiet (Pipeline.getOrderedTransformations transformations).length 0 done w
      exact absurd ⟨kept,filtered,at_⟩ (free context error t)

theorem transform_noOp (rules : List Text) (transformations : List TransformationType) (w : World σ) :
    ((transform { p with hookManager := NoOpHookManager } rules transformations).from w).1 =
      (p.applyFilters rules).bind (outcome p (Pipeline.getOrderedTransformations transformations)) := by
  obtain ⟨t,run,-⟩ := transform_plain { p with hookManager := NoOpHookManager } rfl rules transformations w
  have same := funext (outcome_hooks p NoOpHookManager (Pipeline.getOrderedTransformations transformations))
  rw [run,same]

-- The error hooks of the failing transformation decide what the run ends with.
theorem fails_exact (quiet : Quiet p.hookManager) (hooks : p.hookManager.hasHooks = true)
    (fails : Fails p rules transformations ⟨own,0⟩ context error t) :
    (((transform p rules transformations).from ⟨own,0⟩).1 =
        (p.applyFilters rules).bind (outcome p (Pipeline.getOrderedTransformations transformations)) ∧
      ((transform p rules transformations).from ⟨own,0⟩).2.called = p.hookManager.errorHooks.length) ↔
        Tolerates error (p.hookManager.errorHooks.map (· ⟨context,p.toError error⟩)) t.own := by
  obtain ⟨thrown,run,called⟩ := transform_fails p quiet hooks fails
  have exact_ := errors_exact (α := List Text) error (p.hookManager.errorHooks.map (· ⟨context,p.toError error⟩)) t
  rw [called,List.length_map,Nat.zero_add] at exact_
  rw [thrown,run]
  exact exact_

-- The run with hooks ends like the one without, and all error hooks of the
-- transformation that fails are called, exactly where they tolerate its error.
theorem observers_exact (quiet : Quiet p.hookManager) (rules : List Text) (transformations : List TransformationType) (own : σ) :
    (((transform p rules transformations).from ⟨own,0⟩).1 =
          ((transform { p with hookManager := NoOpHookManager } rules transformations).from ⟨own,0⟩).1 ∧
        ∀ context error t, Fails p rules transformations ⟨own,0⟩ context error t →
          ((transform p rules transformations).from ⟨own,0⟩).2.called = p.hookManager.errorHooks.length) ↔
      ∀ context error t, Fails p rules transformations ⟨own,0⟩ context error t →
        Tolerates error (p.hookManager.errorHooks.map (· ⟨context,p.toError error⟩)) t.own := by
  rw [transform_noOp]
  cases hooks : p.hookManager.hasHooks with
  | false =>
    obtain ⟨t,run,called⟩ := transform_plain p hooks rules transformations ⟨own,0⟩
    have empty : p.hookManager.errorHooks = [] := by
      simp [TransformationHookManager.hasHooks] at hooks
      exact hooks.2
    rw [run,called,empty]
    exact ⟨fun _ _ _ _ _ => trivial,fun _ => ⟨rfl,fun _ _ _ _ => rfl⟩⟩
  | true =>
    constructor
    · intro observed context error t fails
      exact (fails_exact p quiet hooks fails).mp ⟨observed.1,observed.2 context error t fails⟩
    · intro tolerated
      refine ⟨?_,fun context error t fails => ((fails_exact p quiet hooks fails).mpr (tolerated context error t fails)).2⟩
      by_cases some_ : ∃ context error t, Fails p rules transformations ⟨own,0⟩ context error t
      · obtain ⟨context,error,t,fails⟩ := some_
        exact ((fails_exact p quiet hooks fails).mpr (tolerated context error t fails)).1
      · exact transform_settles p quiet ⟨own,0⟩ fun context error t fails => some_ ⟨context,error,t,fails⟩

end Observers

-- TrimLines throws, and what the error hooks do is given.
def failing (errorHooks : List (TransformErrorContext Text → Hook Text Unit)) : TransformationPipeline Text Unit where
  applyFilters := .ok
  registry type := if type = .TrimLines then some fun _ => .error "trim".toList else none
  emitProgress _ own := own
  dateNow _ := 0
  performanceNow _ := 0
  toError := id
  hookManager := ⟨[],[],errorHooks⟩

def twoObservers : TransformationPipeline Text Unit :=
  failing [fun _ => (pure () : Computation Text Unit Unit),fun _ => (pure () : Computation Text Unit Unit)]

def throwingObserver : TransformationPipeline Text Unit :=
  failing [fun _ => (throw "hook".toList : Computation Text Unit Unit),fun _ => (pure () : Computation Text Unit Unit)]

theorem observers_resolve :
    ((transform twoObservers [] [.TrimLines]).from ⟨(),0⟩).1 =
          ((transform { twoObservers with hookManager := NoOpHookManager } [] [.TrimLines]).from ⟨(),0⟩).1 ∧
      ∀ context error t, Fails twoObservers [] [.TrimLines] ⟨(),0⟩ context error t →
        ((transform twoObservers [] [.TrimLines]).from ⟨(),0⟩).2.called = 2 := by
  apply (observers_exact twoObservers ⟨by simp [twoObservers,failing],by simp [twoObservers,failing]⟩ [] [.TrimLines] ()).mpr
  intro context error t _
  trivial

-- The first error hook throws: its error is what the run ends with, and the
-- second hook is not called.
theorem hook_replaces :
    ¬(((transform throwingObserver [] [.TrimLines]).from ⟨(),0⟩).1 =
          ((transform { throwingObserver with hookManager := NoOpHookManager } [] [.TrimLines]).from ⟨(),0⟩).1 ∧
        ∀ context error t, Fails throwingObserver [] [.TrimLines] ⟨(),0⟩ context error t →
          ((transform throwingObserver [] [.TrimLines]).from ⟨(),0⟩).2.called = 2) := by
  intro observed
  have hooked : ((transform throwingObserver [] [.TrimLines]).from ⟨(),0⟩).1 = .error "hook".toList := rfl
  have plain : ((transform { throwingObserver with hookManager := NoOpHookManager } [] [.TrimLines]).from ⟨(),0⟩).1 =
      .error "trim".toList := rfl
  rw [hooked,plain] at observed
  exact absurd (Except.error.inj observed.1) (by decide)

section Faithful

-- The pipeline of the compilers, with hooks.
def ofPipeline (pipeline : Pipeline.TransformationPipeline) (configuration : Filterable) (emitProgress : ProgressEvent → σ → σ)
    (dateNow performanceNow : σ → Int) (toError : Pipeline.Failure → Pipeline.Failure)
    (hookManager : TransformationHookManager Pipeline.Failure σ) : TransformationPipeline Pipeline.Failure σ where
  applyFilters rules := Pipeline.filterRules pipeline rules configuration
  registry type := (pipeline.registry type).map fun transformation rules => (transformation rules).mapError (⟨.other,·⟩)
  emitProgress := emitProgress
  dateNow := dateNow
  performanceNow := performanceNow
  toError := toError
  hookManager := hookManager

theorem ofPipeline_outcome (pipeline : Pipeline.TransformationPipeline) (configuration : Filterable)
    (emitProgress : ProgressEvent → σ → σ) (dateNow performanceNow : σ → Int) (toError : Pipeline.Failure → Pipeline.Failure)
    (hookManager : TransformationHookManager Pipeline.Failure σ) (types : List TransformationType) (rules : List Text) :
    outcome (ofPipeline pipeline configuration emitProgress dateNow performanceNow toError hookManager) types rules =
      Pipeline.applyTransformations pipeline types rules := by
  induction types generalizing rules with
  | nil => rfl
  | cons type rest ih =>
    unfold outcome Pipeline.applyTransformations ofPipeline
    dsimp only
    cases pipeline.registry type with
    | none => exact ih rules
    | some transformation =>
      dsimp only [Option.map_some]
      cases transformation rules with
      | error thrown => rfl
      | ok result => exact ih result

-- Without hooks the run ends with what the pipeline makes of the rules.
theorem ofPipeline_transform (pipeline : Pipeline.TransformationPipeline) (configuration : Filterable)
    (emitProgress : ProgressEvent → σ → σ) (dateNow performanceNow : σ → Int) (toError : Pipeline.Failure → Pipeline.Failure)
    (rules : List Text) (transformations : List TransformationType) (w : World σ) :
    ((transform (ofPipeline pipeline configuration emitProgress dateNow performanceNow toError NoOpHookManager)
        rules transformations).from w).1 = Pipeline.transform pipeline rules configuration transformations := by
  obtain ⟨t,run,-⟩ := transform_plain (ofPipeline pipeline configuration emitProgress dateNow performanceNow toError NoOpHookManager)
    rfl rules transformations w
  have same := funext (ofPipeline_outcome pipeline configuration emitProgress dateNow performanceNow toError NoOpHookManager
    (Pipeline.getOrderedTransformations transformations))
  rw [run,same]
  rfl

end Faithful

end AdblockCompiler.Hooks
