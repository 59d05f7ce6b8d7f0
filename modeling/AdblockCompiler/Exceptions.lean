import Mathlib

-- Computations that may throw and that keep their state when they do: the
-- equations of sequencing and of try, and invariants of the state.
namespace Exceptions

abbrev Computation (ε σ α : Type) := ExceptT ε (StateM σ) α

variable {ε σ α β : Type} {computation : Computation ε σ α} {s t : σ}

-- What a computation settles with, and the state it leaves.
def Computation.from (computation : Computation ε σ α) (s : σ) : Except ε α × σ := computation.run.run s

theorem bind_ok {next : α → Computation ε σ β} (settled : computation.from s = (.ok value,t)) :
    (computation >>= next).from s = (next value).from t := by
  have run : computation s = (.ok value,t) := settled
  show (computation >>= next) s = next value t
  simp only [bind,ExceptT.bind,ExceptT.mk,StateT.bind,run,ExceptT.bindCont]

theorem bind_error {next : α → Computation ε σ β} (settled : computation.from s = (.error error,t)) :
    (computation >>= next).from s = (.error error,t) := by
  have run : computation s = (.error error,t) := settled
  show (computation >>= next) s = (.error error,t)
  simp only [bind,ExceptT.bind,ExceptT.mk,StateT.bind,run,ExceptT.bindCont]
  rfl

theorem catch_ok {rescue : ε → Computation ε σ α} (settled : computation.from s = (.ok value,t)) :
    (tryCatch computation rescue).from s = (.ok value,t) := by
  have run : computation s = (.ok value,t) := settled
  show (tryCatch computation rescue) s = (.ok value,t)
  simp only [tryCatch,tryCatchThe,MonadExceptOf.tryCatch,ExceptT.tryCatch,ExceptT.mk,bind,StateT.bind,run]
  rfl

theorem catch_error {rescue : ε → Computation ε σ α} (settled : computation.from s = (.error error,t)) :
    (tryCatch computation rescue).from s = (rescue error).from t := by
  have run : computation s = (.error error,t) := settled
  show (tryCatch computation rescue) s = rescue error t
  simp only [tryCatch,tryCatchThe,MonadExceptOf.tryCatch,ExceptT.tryCatch,ExceptT.mk,bind,StateT.bind,run]

theorem pure_settled : (pure value : Computation ε σ α).from s = (.ok result,t) ↔ value = result ∧ s = t := by
  show ((Except.ok value : Except ε α),s) = (.ok result,t) ↔ _
  rw [Prod.mk.injEq,Except.ok.injEq]

theorem bind_settled {next : α → Computation ε σ β} :
    (computation >>= next).from s = (.ok result,t) ↔
      ∃ value middle, computation.from s = (.ok value,middle) ∧ (next value).from middle = (.ok result,t) := by
  constructor
  · intro settled
    cases first : computation.from s with
    | mk outcome middle =>
      cases outcome with
      | ok value =>
        rw [bind_ok first] at settled
        exact ⟨value,middle,rfl,settled⟩
      | error error =>
        rw [bind_error first] at settled
        cases settled
  · intro parts
    obtain ⟨value,middle,first,rest⟩ := parts
    exact (bind_ok first).trans rest

theorem catch_settled {rescue : ε → Computation ε σ α} :
    (tryCatch computation rescue).from s = (.ok result,t) ↔ computation.from s = (.ok result,t) ∨
      ∃ error middle, computation.from s = (.error error,middle) ∧ (rescue error).from middle = (.ok result,t) := by
  cases first : computation.from s with
  | mk outcome middle =>
    cases outcome with
    | ok value =>
      rw [catch_ok first]
      constructor
      · exact .inl
      · intro either
        rcases either with same | ⟨_,_,failed,-⟩
        · exact same
        · cases failed
    | error error =>
      rw [catch_error first]
      constructor
      · intro rescued
        exact .inr ⟨error,middle,rfl,rescued⟩
      · intro either
        rcases either with same | ⟨_,_,failed,rescued⟩
        · cases same
        · cases failed
          exact rescued

section Answering

-- The computation throws nothing from this state.
def Answers (computation : Computation ε σ α) (s : σ) : Prop := ∃ value t, computation.from s = (.ok value,t)

theorem answers_pure (value : α) (s : σ) : Answers (pure value : Computation ε σ α) s := ⟨value,s,rfl⟩

theorem answers_bind {next : α → Computation ε σ β} (first : computation.from s = (.ok value,t))
    (rest : Answers (next value) t) : Answers (computation >>= next) s := by
  obtain ⟨result,u,settled⟩ := rest
  exact ⟨result,u,(bind_ok first).trans settled⟩

theorem answers_first {next : α → Computation ε σ β} (whole : Answers (computation >>= next) s) : Answers computation s := by
  obtain ⟨result,u,settled⟩ := whole
  obtain ⟨value,t,first,-⟩ := bind_settled.mp settled
  exact ⟨value,t,first⟩

theorem answers_catch {rescue : ε → Computation ε σ α} (rescued : ∀ error t, Answers (rescue error) t) (s : σ) :
    Answers (tryCatch computation rescue) s := by
  cases settled : computation.from s with
  | mk outcome t =>
    cases outcome with
    | ok value => exact ⟨value,t,catch_ok settled⟩
    | error error =>
      obtain ⟨value,u,answered⟩ := rescued error t
      exact ⟨value,u,(catch_error settled).trans answered⟩

end Answering

section Keeping
variable {invariant : σ → Prop}

-- Whether it throws or not, a computation leaves the invariant as it was.
def Keeps (invariant : σ → Prop) (computation : Computation ε σ α) : Prop :=
  ∀ s, invariant s → invariant (computation.from s).2

theorem keeps_bind {next : α → Computation ε σ β} (first : Keeps invariant computation)
    (rest : ∀ value, Keeps invariant (next value)) : Keeps invariant (computation >>= next) := by
  intro s kept
  have middle := first s kept
  cases settled : computation.from s with
  | mk outcome t =>
    rw [settled] at middle
    cases outcome with
    | ok value =>
      rw [bind_ok settled]
      exact rest value t middle
    | error error =>
      rw [bind_error settled]
      exact middle

theorem keeps_catch {rescue : ε → Computation ε σ α} (first : Keeps invariant computation)
    (rest : ∀ error, Keeps invariant (rescue error)) : Keeps invariant (tryCatch computation rescue) := by
  intro s kept
  have middle := first s kept
  cases settled : computation.from s with
  | mk outcome t =>
    rw [settled] at middle
    cases outcome with
    | ok value =>
      rw [catch_ok settled]
      exact middle
    | error error =>
      rw [catch_error settled]
      exact rest error t middle

theorem keeps_pure (value : α) : Keeps invariant (pure value : Computation ε σ α) := fun _ kept => kept

theorem keeps_throw (error : ε) : Keeps invariant (throw error : Computation ε σ α) := fun _ kept => kept

theorem keeps_get : Keeps invariant (get : Computation ε σ σ) := fun _ kept => kept
end Keeping

end Exceptions
