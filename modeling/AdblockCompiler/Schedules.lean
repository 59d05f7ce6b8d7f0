import Mathlib

-- Runs of a system whose parties take steps in any order. A step that is not
-- enabled in a state is refused.
namespace Schedules

def run (step : σ → ε → Option σ) (s : σ) : List ε → Option σ
  | [] => some s
  | event :: rest => (step s event).bind (run step · rest)

variable {step : σ → ε → Option σ}

theorem run_cons : run step s (event :: rest) = some t ↔ ∃ next, step s event = some next ∧ run step next rest = some t :=
  Option.bind_eq_some_iff

theorem run_append : run step s (first ++ rest) = some t ↔
    ∃ middle, run step s first = some middle ∧ run step middle rest = some t := by
  induction first generalizing s with
  | nil => simp [run]
  | cons event first ih =>
    constructor
    · intro ran
      obtain ⟨next,stepped,after⟩ := run_cons.mp ran
      obtain ⟨middle,one,two⟩ := ih.mp after
      exact ⟨middle,run_cons.mpr ⟨next,stepped,one⟩,two⟩
    · intro parts
      obtain ⟨middle,one,two⟩ := parts
      obtain ⟨next,stepped,after⟩ := run_cons.mp one
      exact run_cons.mpr ⟨next,stepped,ih.mpr ⟨middle,after,two⟩⟩

-- What each step keeps, a run keeps.
theorem run_keeps (invariant : σ → Prop)
    (kept : ∀ s event t, invariant s → step s event = some t → invariant t) (start : invariant s)
    (ran : run step s events = some t) : invariant t := by
  induction events generalizing s with
  | nil => exact Option.some.inj ran ▸ start
  | cons event rest ih =>
    obtain ⟨next,stepped,after⟩ := run_cons.mp ran
    exact ih (kept s event next start stepped) after

theorem run_history (invariant : List ε → σ → Prop)
    (kept : ∀ done s event t, invariant done s → step s event = some t → invariant (done ++ [event]) t) (start : invariant [] s)
    (ran : run step s events = some t) : invariant events t := by
  have all : ∀ done, invariant done s → invariant (done ++ events) t := by
    clear start
    induction events generalizing s with
    | nil =>
      intro done holds
      rw [List.append_nil]
      exact Option.some.inj ran ▸ holds
    | cons event rest ih =>
      intro done holds
      obtain ⟨next,stepped,after⟩ := run_cons.mp ran
      have later := ih after (done ++ [event]) (kept done s event next holds stepped)
      rwa [List.append_assoc] at later
  exact all [] start

-- The same schedule with some steps left out of consideration: a step is taken
-- only where it is admitted.
def guarded (admits : σ → ε → Bool) (step : σ → ε → Option σ) : σ → ε → Option σ :=
  fun s event => if admits s event then step s event else none

variable {admits : σ → ε → Bool}

theorem guarded_step : guarded admits step s event = some t ↔ admits s event = true ∧ step s event = some t := by
  unfold guarded
  cases admitted : admits s event with
  | true => simp
  | false => simp

theorem guarded_run (ran : run (guarded admits step) s events = some t) : run step s events = some t := by
  induction events generalizing s with
  | nil => exact ran
  | cons event rest ih =>
    obtain ⟨next,taken,after⟩ := run_cons.mp ran
    exact run_cons.mpr ⟨next,(guarded_step.mp taken).2,ih after⟩

def Along (step : σ → ε → Option σ) (P : σ → ε → σ → Prop) (s : σ) : List ε → Prop
  | [] => True
  | event :: rest => ∃ next, step s event = some next ∧ P s event next ∧ Along step P next rest

-- Two conditions on steps agree along every run when they agree wherever an
-- invariant holds that steps of the first kind keep.
theorem along_exact (invariant : σ → Prop) (kept : ∀ s event t, invariant s → step s event = some t → P s event t → invariant t)
    (same : ∀ s event t, invariant s → step s event = some t → (P s event t ↔ Q s event t)) (start : invariant s) :
    Along step P s events ↔ Along step Q s events := by
  induction events generalizing s with
  | nil => exact Iff.rfl
  | cons event rest ih =>
    constructor
    · intro along
      obtain ⟨next,stepped,allowed,after⟩ := along
      have later := kept s event next start stepped allowed
      exact ⟨next,stepped,(same s event next start stepped).mp allowed,(ih later).mp after⟩
    · intro along
      obtain ⟨next,stepped,allowed,after⟩ := along
      have back := (same s event next start stepped).mpr allowed
      have later := kept s event next start stepped back
      exact ⟨next,stepped,back,(ih later).mpr after⟩

theorem along_keeps (invariant : σ → Prop) (kept : ∀ s event t, invariant s → step s event = some t → P s event t → invariant t)
    (start : invariant s) (along : Along step P s events) (ran : run step s events = some t) : invariant t := by
  induction events generalizing s with
  | nil => exact Option.some.inj ran ▸ start
  | cons event rest ih =>
    obtain ⟨next,stepped,allowed,after⟩ := along
    rw [run,stepped] at ran
    exact ih (kept s event next start stepped allowed) after ran

theorem along_reaches {Q : σ → Prop} (start : Q s) (along : Along step (fun _ _ next => Q next) s events)
    (ran : run step s events = some t) : Q t :=
  along_keeps Q (fun _ _ _ _ _ holds => holds) start along ran

theorem along_weaken (invariant : σ → Prop) (kept : ∀ s event t, invariant s → step s event = some t → P s event t → invariant t)
    (weaker : ∀ s event t, invariant s → step s event = some t → P s event t → Q s event t) (start : invariant s)
    (along : Along step P s events) : Along step Q s events := by
  induction events generalizing s with
  | nil => trivial
  | cons event rest ih =>
    obtain ⟨next,stepped,allowed,after⟩ := along
    exact ⟨next,stepped,weaker s event next start stepped allowed,ih (kept s event next start stepped allowed) after⟩

theorem along_append : Along step P s (first ++ rest) ↔ Along step P s first ∧ ∀ middle, run step s first = some middle → Along step P middle rest := by
  induction first generalizing s with
  | nil => simp [Along,run]
  | cons event first ih =>
    constructor
    · intro along
      obtain ⟨next,stepped,allowed,after⟩ := along
      obtain ⟨one,two⟩ := ih.mp after
      refine ⟨⟨next,stepped,allowed,one⟩,?_⟩
      intro middle ran
      rw [run,stepped] at ran
      exact two middle ran
    · intro parts
      obtain ⟨⟨next,stepped,allowed,one⟩,two⟩ := parts
      refine ⟨next,stepped,allowed,ih.mpr ⟨one,?_⟩⟩
      intro middle ran
      exact two middle (run_cons.mpr ⟨next,stepped,ran⟩)

-- A condition on the state before each step holds along a run exactly when the
-- guarded schedule can be run.
theorem along_guarded : Along step (fun s event _ => admits s event = true) s events ↔
    (run (guarded admits step) s events).isSome = true := by
  induction events generalizing s with
  | nil => exact ⟨fun _ => rfl,fun _ => trivial⟩
  | cons event rest ih =>
    constructor
    · intro along
      obtain ⟨next,stepped,admitted,after⟩ := along
      have taken : guarded admits step s event = some next := guarded_step.mpr ⟨admitted,stepped⟩
      rw [run,taken]
      exact ih.mp after
    · intro ran
      obtain ⟨t,reached⟩ := Option.isSome_iff_exists.mp ran
      obtain ⟨next,taken,after⟩ := run_cons.mp reached
      obtain ⟨admitted,stepped⟩ := guarded_step.mp taken
      exact ⟨next,stepped,admitted,ih.mpr (Option.isSome_iff_exists.mpr ⟨t,after⟩)⟩

def total (f : α → Nat) (items : List α) : Nat := (items.map f).sum

theorem total_append (f : α → Nat) (first rest : List α) : total f (first ++ rest) = total f first + total f rest := by
  simp [total]

theorem total_set (f : α → Nat) {items : List α} (found : items[i]? = some old) (new : α) :
    total f (items.set i new) + f old = total f items + f new := by
  induction items generalizing i with
  | nil => simp at found
  | cons item items ih =>
    cases i with
    | zero =>
      obtain rfl : item = old := by simpa using found
      simp only [total,List.set_cons_zero,List.map_cons,List.sum_cons]
      omega
    | succ i =>
      have inner := ih (i := i) (by simpa using found)
      simp only [total,List.set_cons_succ,List.map_cons,List.sum_cons] at inner ⊢
      omega

theorem countP_total (p : α → Bool) (f : α → Nat) (items : List α) (bounded : ∀ item ∈ items, p item = true → 1 ≤ f item) :
    items.countP p ≤ total f items := by
  induction items with
  | nil => exact Nat.le_refl 0
  | cons item items ih =>
    have rest := ih fun other member => bounded other (List.mem_cons_of_mem _ member)
    have first := bounded item List.mem_cons_self
    rw [List.countP_cons,total,List.map_cons,List.sum_cons]
    unfold total at rest
    split
    · have := first ‹_›
      omega
    · omega

theorem forall_set {P : α → Prop} {items : List α} (all : ∀ item ∈ items, P item) (new : P item) : ∀ other ∈ items.set i item, P other := by
  intro other member
  cases List.mem_or_eq_of_mem_set member with
  | inl old => exact all other old
  | inr same => exact same ▸ new

theorem forall_append {P : α → Prop} {items : List α} (all : ∀ item ∈ items, P item) (last : P new) : ∀ item ∈ items ++ [new], P item :=
  List.forall_mem_append.mpr ⟨all,List.forall_mem_singleton.mpr last⟩

theorem placed_set {items : List α} (found : items[i]? = some old) (new : α) : (items.set i new)[i]? = some new := by
  rw [List.getElem?_set_self',found]
  rfl

theorem found_set {items : List α} (found : (items.set i new)[j]? = some item) :
    (j = i ∧ item = new) ∨ (j ≠ i ∧ items[j]? = some item) := by
  by_cases same : j = i
  · subst same
    rw [List.getElem?_set_self'] at found
    obtain ⟨-,-,rfl⟩ := Option.map_eq_some_iff.mp found
    exact .inl ⟨rfl,rfl⟩
  · rw [List.getElem?_set_ne (Ne.symm same)] at found
    exact .inr ⟨same,found⟩

theorem found_append {items : List α} (found : (items ++ [new])[j]? = some item) : items[j]? = some item ∨ (j = items.length ∧ item = new) := by
  by_cases old : j < items.length
  · rw [List.getElem?_append_left old] at found
    exact .inl found
  · rw [List.getElem?_append_right (Nat.le_of_not_lt old)] at found
    have last := (List.getElem?_eq_some_iff.mp found).1
    rw [List.length_singleton] at last
    have zero : j-items.length = 0 := by omega
    rw [zero] at found
    exact .inr ⟨by omega,(Option.some.inj found).symm⟩

end Schedules
