import AdblockCompiler.Schedules

-- Programs whose steps an engine carries out. It keeps how each step has ended:
-- when the isolate is lost the program runs again from its start, and a step
-- that has ended is answered from what is kept.
namespace DurableSteps
open Schedules

-- A step ends with a value, or throws once its attempts are spent.
inductive Flow (κ : Type) (β : κ → Type) (ε ρ : Type) where
  | done (result : ρ)
  | step (key : κ) (next : Except ε (β key) → Flow κ β ε ρ)

variable {κ : Type} {β : κ → Type} {ε ρ α : Type}

abbrev Answers (κ : Type) (β : κ → Type) (ε : Type) := (key : κ) → Except ε (β key)

-- What the program returns where each step ends as told.
def Flow.eval (answers : Answers κ β ε) : Flow κ β ε ρ → ρ
  | .done result => result
  | .step key next => (next (answers key)).eval answers

-- The steps the program asks for on its way.
def Flow.Asks (answers : Answers κ β ε) : Flow κ β ε ρ → κ → Prop
  | .done _,_ => False
  | .step key next,asked => asked = key ∨ (next (answers key)).Asks answers asked

-- limit is how many failed attempts are followed by another one.
structure Engine (κ : Type) (β : κ → Type) (ε α : Type) where
  limit : κ → Nat
  attempt : (key : κ) → α → Except ε (β key)

structure State (κ : Type) (β : κ → Type) (ε ρ : Type) where
  records : (key : κ) → Option (Except ε (β key))
  failures : κ → Nat
  running : Option (Flow κ β ε ρ)

inductive Event (α : Type) where
  | start
  | attempt (given : α)
  | answer
  | lost

def initial : State κ β ε ρ := ⟨fun _ => none,fun _ => 0,none⟩

def State.Completes (s : State κ β ε ρ) (result : ρ) : Prop := s.running = some (.done result)

def Flow.waits : Flow κ β ε ρ → Option κ
  | .done _ => none
  | .step key _ => some key

def Flow.answered (records : (key : κ) → Option (Except ε (β key))) : Flow κ β ε ρ → Option (Flow κ β ε ρ)
  | .done _ => none
  | .step key next => (records key).map next

variable {s t : State κ β ε ρ}

-- What is kept of a step stays as it is.
def Extends (s t : State κ β ε ρ) : Prop := ∀ key outcome, s.records key = some outcome → t.records key = some outcome

theorem extends_trans {u : State κ β ε ρ} (one : Extends s t) (two : Extends t u) : Extends s u :=
  fun key outcome kept => two key outcome (one key outcome kept)

variable [DecidableEq κ]

def attempted (engine : Engine κ β ε α) (s : State κ β ε ρ) (key : κ) (given : α) : State κ β ε ρ :=
  match engine.attempt key given with
  | .ok value => { s with records := Function.update s.records key (some (.ok value)) }
  | .error error =>
    let failures := Function.update s.failures key (s.failures key+1)
    if s.failures key < engine.limit key then { s with failures := failures }
    else { s with records := Function.update s.records key (some (.error error)), failures := failures }

def step (engine : Engine κ β ε α) (program : Flow κ β ε ρ) (s : State κ β ε ρ) : Event α → Option (State κ β ε ρ)
  | .start => if s.running.isNone then some { s with running := some program } else none
  | .attempt given => do
    let key ← (← s.running).waits
    if (s.records key).isNone then some (attempted engine s key given) else none
  | .answer => do
    let flow ← (← s.running).answered s.records
    some { s with running := some flow }
  | .lost => if s.running.isSome then some { s with running := none } else none

variable {engine : Engine κ β ε α} {program : Flow κ β ε ρ} {events : List (Event α)}

-- All that a step of the engine can do.
inductive Turn (engine : Engine κ β ε α) (program : Flow κ β ε ρ) (s : State κ β ε ρ) : State κ β ε ρ → Prop where
  | started : Turn engine program s { s with running := some program }
  | lost : Turn engine program s { s with running := none }
  | answered (key : κ) (next : Except ε (β key) → Flow κ β ε ρ) (outcome : Except ε (β key)) (waiting : s.running = some (.step key next))
      (kept : s.records key = some outcome) : Turn engine program s { s with running := some (next outcome) }
  | failed (failures : κ → Nat) : Turn engine program s { s with failures := failures }
  | ended (key : κ) (given : α) (failures : κ → Nat) (fresh : s.records key = none) :
      Turn engine program s { s with records := Function.update s.records key (some (engine.attempt key given)), failures := failures }

theorem step_turn (event : Event α) (stepped : step engine program s event = some t) : Turn engine program s t := by
  cases event with
  | start =>
    simp only [step,Option.ite_none_right_eq_some,Option.some.injEq] at stepped
    obtain ⟨_,rfl⟩ := stepped
    exact .started
  | lost =>
    simp only [step,Option.ite_none_right_eq_some,Option.some.injEq] at stepped
    obtain ⟨_,rfl⟩ := stepped
    exact .lost
  | answer =>
    simp only [step,Option.bind_eq_bind,Option.bind_eq_some_iff,Option.some.injEq] at stepped
    obtain ⟨current,waiting,flow,moved,rfl⟩ := stepped
    cases current with
    | done => cases moved
    | step key next =>
      obtain ⟨outcome,kept,rfl⟩ := Option.map_eq_some_iff.mp moved
      exact .answered key next outcome waiting kept
  | attempt given =>
    simp only [step,Option.bind_eq_bind,Option.bind_eq_some_iff,Option.ite_none_right_eq_some,Option.some.injEq,
      Option.isNone_iff_eq_none] at stepped
    obtain ⟨_,_,key,_,fresh,rfl⟩ := stepped
    unfold attempted
    split
    · rename_i value ended
      rw [← ended]
      exact .ended key given s.failures fresh
    · rename_i error thrown
      split
      · exact .failed _
      · rw [← thrown]
        exact .ended key given _ fresh

theorem turn_extends (turn : Turn engine program s t) : Extends s t := by
  intro other outcome kept
  cases turn with
  | started => exact kept
  | lost => exact kept
  | answered => exact kept
  | failed => exact kept
  | ended key given failures fresh =>
    by_cases same : other = key
    · subst same
      rw [fresh] at kept
      cases kept
    · simpa [Function.update_of_ne same] using kept

-- The run of the program so far agrees with every way to answer its steps that
-- agrees with what is kept.
structure Sound (engine : Engine κ β ε α) (program : Flow κ β ε ρ) (s : State κ β ε ρ) : Prop where
  recorded : ∀ key outcome, s.records key = some outcome → ∃ given, engine.attempt key given = outcome
  path : ∀ flow, s.running = some flow → ∀ answers : Answers κ β ε, (∀ key outcome, s.records key = some outcome → answers key = outcome) →
    flow.eval answers = program.eval answers ∧ ∀ key, program.Asks answers key → flow.Asks answers key ∨ ∃ outcome, s.records key = some outcome

omit [DecidableEq κ] in
theorem initial_sound : Sound engine program (initial : State κ β ε ρ) := by
  refine ⟨?_,?_⟩
  · intro key outcome kept
    cases kept
  · intro flow running
    cases running

theorem turn_sound (sound : Sound engine program s) (turn : Turn engine program s t) : Sound engine program t := by
  have kept := turn_extends turn
  cases turn with
  | started =>
    refine ⟨sound.recorded,?_⟩
    intro flow running answers _
    rw [Option.some.inj running]
    exact ⟨rfl,fun _ asked => .inl asked⟩
  | lost =>
    refine ⟨sound.recorded,?_⟩
    intro flow running
    cases running
  | answered key next outcome waiting known =>
    refine ⟨sound.recorded,?_⟩
    intro flow running answers agrees
    obtain ⟨before,asks⟩ := sound.path _ waiting answers agrees
    rw [Flow.eval,agrees key outcome known] at before
    rw [← Option.some.inj running]
    refine ⟨before,?_⟩
    intro other asked
    obtain (rfl | further) | held := asks other asked
    · exact .inr ⟨outcome,known⟩
    · rw [agrees key outcome known] at further
      exact .inl further
    · exact .inr held
  | failed => exact ⟨sound.recorded,sound.path⟩
  | ended key given failures fresh =>
    refine ⟨?_,?_⟩
    · intro other outcome held
      by_cases same : other = key
      · subst same
        simp only [Function.update_self,Option.some.injEq] at held
        exact ⟨given,held⟩
      · exact sound.recorded other outcome (by simpa [Function.update_of_ne same] using held)
    · intro flow running answers agrees
      obtain ⟨same,asks⟩ := sound.path flow running answers fun other outcome held => agrees other outcome (kept other outcome held)
      refine ⟨same,?_⟩
      intro other asked
      obtain further | ⟨outcome,held⟩ := asks other asked
      · exact .inl further
      · exact .inr ⟨outcome,kept other outcome held⟩

theorem run_sound (ran : run (step engine program) initial events = some s) : Sound engine program s :=
  run_keeps (Sound engine program) (fun _ event _ sound stepped => turn_sound sound (step_turn event stepped)) initial_sound ran

theorem run_extends (ran : run (step engine program) s events = some t) : Extends s t :=
  run_keeps (Extends s) (fun _ event _ before stepped => extends_trans before (turn_extends (step_turn event stepped)))
    (fun _ _ kept => kept) ran

omit [DecidableEq κ] in
-- What is kept can be told by one attempt of each step.
theorem recorded_answers [Inhabited α] (sound : Sound engine program s) :
    ∃ given : κ → α, ∀ key outcome, s.records key = some outcome → engine.attempt key (given key) = outcome := by
  have each : ∀ key, ∃ given, ∀ outcome, s.records key = some outcome → engine.attempt key given = outcome := by
    intro key
    cases kept : s.records key with
    | none => exact ⟨default,fun outcome held => by cases held⟩
    | some outcome =>
      obtain ⟨given,ended⟩ := sound.recorded key outcome kept
      exact ⟨given,fun other held => ended.trans (Option.some.inj held)⟩
  choose given told using each
  exact ⟨given,told⟩

-- A run that completes returns what the program returns where each step ends as
-- one of its attempts does.
theorem completes_eval [Inhabited α] (ran : run (step engine program) initial events = some s) (completes : s.Completes result) :
    ∃ given : κ → α, result = program.eval (fun key => engine.attempt key (given key)) ∧
      ∀ key, program.Asks (fun key => engine.attempt key (given key)) key → s.records key = some (engine.attempt key (given key)) := by
  have sound := run_sound ran
  obtain ⟨given,told⟩ := recorded_answers sound
  obtain ⟨same,asks⟩ := sound.path _ completes _ told
  refine ⟨given,same,?_⟩
  intro key asked
  obtain further | ⟨outcome,kept⟩ := asks key asked
  · exact further.elim
  · rw [told key outcome kept]
    exact kept

-- However often the isolate is lost afterwards, it returns the same again.
theorem completes_once [Inhabited α] (ran : run (step engine program) initial events = some s) (completes : s.Completes result)
    (later : run (step engine program) s more = some t) (again : t.Completes other) : other = result := by
  have sound : Sound engine program t := run_sound (run_append.mpr ⟨s,ran,later⟩)
  obtain ⟨given,told⟩ := recorded_answers sound
  have first := (run_sound ran).path _ completes (fun key => engine.attempt key (given key)) fun key outcome kept =>
    told key outcome (run_extends later key outcome kept)
  have second := sound.path _ again _ told
  exact second.1.trans first.1.symm

theorem attempt_step (given : α) (running : s.running = some (.step key next)) (fresh : s.records key = none) :
    step engine program s (.attempt given) = some (attempted engine s key given) := by
  simp [step,running,Flow.waits,fresh]

theorem attempted_running (given : α) : (attempted engine s key given).running = s.running := by
  unfold attempted
  split
  · rfl
  · split
    · rfl
    · rfl

-- Attempts go on until the step has ended, by the number of them that are left.
theorem ends_step [Inhabited α] (left : Nat) (running : s.running = some (.step key next)) (room : engine.limit key-s.failures key ≤ left) :
    ∃ (events : List (Event α)) (t : State κ β ε ρ),
      run (step engine program) s events = some t ∧ t.running = some (.step key next) ∧ ∃ outcome, t.records key = some outcome := by
  induction left generalizing s with
  | zero =>
    cases fresh : s.records key with
    | some outcome => exact ⟨[],s,rfl,running,outcome,fresh⟩
    | none =>
      refine ⟨[.attempt default],attempted engine s key default,?_,(attempted_running _).trans running,?_⟩
      · exact run_cons.mpr ⟨_,attempt_step default running fresh,rfl⟩
      · unfold attempted
        split
        · exact ⟨_,Function.update_self ..⟩
        · rw [if_neg (by omega)]
          exact ⟨_,Function.update_self ..⟩
  | succ left ih =>
    cases fresh : s.records key with
    | some outcome => exact ⟨[],s,rfl,running,outcome,fresh⟩
    | none =>
      have stays : (attempted engine s key default).running = some (.step key next) := (attempted_running _).trans running
      have shrinks : (∃ outcome, (attempted engine s key default).records key = some outcome) ∨
          engine.limit key-(attempted engine s key default).failures key ≤ left := by
        unfold attempted
        split
        · exact .inl ⟨_,Function.update_self ..⟩
        · split
          · right
            simp only [Function.update_self]
            omega
          · exact .inl ⟨_,Function.update_self ..⟩
      obtain ended | room := shrinks
      · exact ⟨[.attempt default],_,run_cons.mpr ⟨_,attempt_step default running fresh,rfl⟩,stays,ended⟩
      · obtain ⟨events,t,ran,waiting,ended⟩ := ih stays room
        exact ⟨.attempt default :: events,t,run_cons.mpr ⟨_,attempt_step default running fresh,ran⟩,waiting,ended⟩

theorem completes_from [Inhabited α] (flow : Flow κ β ε ρ) (running : s.running = some flow) :
    ∃ (events : List (Event α)) (t : State κ β ε ρ) (result : ρ), run (step engine program) s events = some t ∧ t.Completes result := by
  induction flow generalizing s with
  | done result => exact ⟨[],s,result,rfl,running⟩
  | step key next ih =>
    obtain ⟨events,middle,ran,waiting,outcome,kept⟩ :
        ∃ (events : List (Event α)) (middle : State κ β ε ρ), run (step engine program) s events = some middle ∧
          middle.running = some (.step key next) ∧ ∃ outcome, middle.records key = some outcome := ends_step _ running (Nat.le_refl _)
    have answered : step engine program middle .answer = some { middle with running := some (next outcome) } := by
      simp [step,waiting,Flow.answered,kept]
    obtain ⟨more,t,result,after,completes⟩ := ih outcome (s := { middle with running := some (next outcome) }) rfl
    exact ⟨events ++ .answer :: more,t,result,run_append.mpr ⟨middle,ran,run_cons.mpr ⟨_,answered,after⟩⟩,completes⟩

-- No run gets stuck: from every state the program can be brought to its end.
theorem never_stuck [Inhabited α] (s : State κ β ε ρ) :
    ∃ (events : List (Event α)) (t : State κ β ε ρ) (result : ρ), run (step engine program) s events = some t ∧ t.Completes result := by
  cases running : s.running with
  | some flow => exact completes_from flow running
  | none =>
    have started : step engine program s .start = some { s with running := some program } := by simp [step,running]
    obtain ⟨events,t,result,ran,completes⟩ :
        ∃ (events : List (Event α)) (t : State κ β ε ρ) (result : ρ),
          run (step engine program) { s with running := some program } events = some t ∧ t.Completes result := completes_from program rfl
    exact ⟨.start :: events,t,result,run_cons.mpr ⟨_,started,ran⟩,completes⟩

end DurableSteps
