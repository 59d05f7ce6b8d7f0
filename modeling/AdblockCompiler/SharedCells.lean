import AdblockCompiler.Schedules

-- A store whose cells are read and written by separate operations of many
-- parties, with nothing that holds the two together. Cells have types of their
-- own.
namespace SharedCells
open Schedules

-- What a party does to its cell: what it writes is made from what it has read.
structure Job {κ : Type} (α : κ → Type) where
  key : κ
  update : Option (α key) → α key

variable {ι κ : Type} {α : κ → Type}

structure State (jobs : ι → Job α) where
  cells : (key : κ) → Option (α key)
  held : (party : ι) → Option (Option (α (jobs party).key))

-- A party reads, writes, or is stopped between the two; a cell may be dropped.
inductive Event (ι κ : Type) where
  | read (party : ι)
  | write (party : ι)
  | stop (party : ι)
  | drop (key : κ)

def opened (jobs : ι → Job α) (cells : (key : κ) → Option (α key)) : State jobs := ⟨cells,fun _ => none⟩

-- Good cells, and parties that hold what was read from good cells.
structure Holds (jobs : ι → Job α) (good : (key : κ) → α key → Prop) (s : State jobs) : Prop where
  cells : ∀ key value, s.cells key = some value → good key value
  held : ∀ party value, s.held party = some (some value) → good (jobs party).key value

def Keeps (jobs : ι → Job α) (good : (key : κ) → α key → Prop) : Prop :=
  ∀ party before, (∀ value, before = some value → good (jobs party).key value) → good (jobs party).key ((jobs party).update before)

variable [DecidableEq ι] [DecidableEq κ]

def Job.perform (job : Job α) (cells : (key : κ) → Option (α key)) (before : Option (α job.key)) : (key : κ) → Option (α key) :=
  Function.update cells job.key (some (job.update before))

def step (jobs : ι → Job α) (s : State jobs) : Event ι κ → Option (State jobs)
  | .read party => some { s with held := Function.update s.held party (some (s.cells (jobs party).key)) }
  | .write party => (s.held party).map fun before => ⟨(jobs party).perform s.cells before,Function.update s.held party none⟩
  | .stop party => some { s with held := Function.update s.held party none }
  | .drop key => some { s with cells := Function.update s.cells key none }

variable {jobs : ι → Job α} {good : (key : κ) → α key → Prop} {s t : State jobs} {events : List (Event ι κ)}

omit [DecidableEq κ] in
theorem stop_held (holds : Holds jobs good s) (party other : ι) (value : α (jobs other).key)
    (found : Function.update s.held party none other = some (some value)) : good (jobs other).key value := by
  by_cases same : other = party
  · subst same
    rw [Function.update_self] at found
    cases found
  · rw [Function.update_of_ne same] at found
    exact holds.held other value found

theorem step_holds (updates : Keeps jobs good) (event : Event ι κ) (holds : Holds jobs good s) (stepped : step jobs s event = some t) :
    Holds jobs good t := by
  cases event with
  | read party =>
    cases Option.some.inj stepped
    refine ⟨holds.cells,?_⟩
    intro other value found
    by_cases same : other = party
    · subst same
      exact holds.cells _ value (by simpa using found)
    · exact holds.held other value (by simpa [Function.update_of_ne same] using found)
  | write party =>
    obtain ⟨before,holding,rfl⟩ := Option.map_eq_some_iff.mp stepped
    refine ⟨?_,stop_held holds party⟩
    intro key value found
    by_cases same : key = (jobs party).key
    · subst same
      obtain rfl : (jobs party).update before = value := by simpa [Job.perform] using found
      refine updates party before ?_
      intro value same
      exact holds.held party value (same ▸ holding)
    · exact holds.cells key value (by simpa [Job.perform,Function.update_of_ne same] using found)
  | stop party =>
    cases Option.some.inj stepped
    exact ⟨holds.cells,stop_held holds party⟩
  | drop key =>
    cases Option.some.inj stepped
    refine ⟨?_,holds.held⟩
    intro other value found
    by_cases same : other = key
    · subst same
      simp at found
    · exact holds.cells other value (by simpa [Function.update_of_ne same] using found)

-- What every update keeps holds of the cells in every interleaving.
theorem cells_keep (updates : Keeps jobs good) (start : ∀ key value, cells key = some value → good key value)
    (ran : run (step jobs) (opened jobs cells) events = some t) : ∀ key value, t.cells key = some value → good key value := by
  have first : Holds jobs good (opened jobs cells) := ⟨start,fun _ _ found => by cases found⟩
  exact (run_keeps (Holds jobs good) (fun _ event _ holds stepped => step_holds updates event holds stepped) first ran).cells

def settled (jobs : ι → Job α) (cells : (key : κ) → Option (α key)) : List (Event ι κ) → (key : κ) → Option (α key)
  | [] => cells
  | .write party :: rest => settled jobs ((jobs party).perform cells (cells (jobs party).key)) rest
  | .drop key :: rest => settled jobs (Function.update cells key none) rest
  | .read _ :: rest | .stop _ :: rest => settled jobs cells rest

-- What a party has read is what its cell still holds when it writes: no other
-- party has written in between, and the cell was not dropped.
def Undisturbed (jobs : ι → Job α) (s : State jobs) (event : Event ι κ) (_ : State jobs) : Prop :=
  ∀ party before, event = .write party → s.held party = some before → before = s.cells (jobs party).key

theorem cells_settled (ran : run (step jobs) s events = some t) (alone : Along (step jobs) (Undisturbed jobs) s events) :
    t.cells = settled jobs s.cells events := by
  induction events generalizing s with
  | nil => exact congrArg (·.cells) (Option.some.inj ran).symm
  | cons event rest ih =>
    obtain ⟨next,stepped,after⟩ := run_cons.mp ran
    obtain ⟨same,taken,undisturbed,later⟩ := alone
    obtain rfl : next = same := Option.some.inj (stepped.symm.trans taken)
    rw [ih after later]
    cases event with
    | read party =>
      cases Option.some.inj stepped
      rfl
    | stop party =>
      cases Option.some.inj stepped
      rfl
    | drop key =>
      cases Option.some.inj stepped
      rfl
    | write party =>
      obtain ⟨before,holding,rfl⟩ := Option.map_eq_some_iff.mp stepped
      obtain rfl := undisturbed party before rfl holding
      rfl

-- The parties that have written a cell since it was dropped last, in order.
def since (jobs : ι → Job α) (key : κ) (done : List ι) : List (Event ι κ) → List ι
  | [] => done
  | .write party :: rest => since jobs key (if (jobs party).key = key then done ++ [party] else done) rest
  | .drop dropped :: rest => since jobs key (if dropped = key then [] else done) rest
  | .read _ :: rest | .stop _ :: rest => since jobs key done rest

omit [DecidableEq ι] in
theorem settled_since (tells : (key : κ) → List ι → Option (α key) → Prop) (empty : ∀ key, tells key [] none)
    (adds : ∀ party done before, tells (jobs party).key done before → tells (jobs party).key (done ++ [party]) (some ((jobs party).update before)))
    (key : κ) (done : List ι) (start : tells key done (cells key)) (events : List (Event ι κ)) :
    tells key (since jobs key done events) (settled jobs cells events key) := by
  induction events generalizing cells done with
  | nil => exact start
  | cons event rest ih =>
    cases event with
    | read party => exact ih done start
    | stop party => exact ih done start
    | drop dropped =>
      refine ih _ ?_
      by_cases mine : dropped = key
      · subst mine
        simpa using empty dropped
      · have other : key ≠ dropped := fun same => mine same.symm
        simpa [mine,Function.update_of_ne other] using start
    | write party =>
      refine ih _ ?_
      by_cases mine : (jobs party).key = key
      · subst mine
        simpa [Job.perform] using adds party done _ start
      · have other : key ≠ (jobs party).key := fun same => mine same.symm
        simpa [mine,Job.perform,Function.update_of_ne other] using start

end SharedCells
