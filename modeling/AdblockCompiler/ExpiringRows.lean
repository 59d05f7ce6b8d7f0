import AdblockCompiler.KeyedRows

-- Tables whose rows can be read until an instant of their own. What has expired
-- may still be stored: a view of a table is what can be read of it from now on.
namespace ExpiringRows
open KeyedRows

def past (now : Int) (expiry : Option Int) : Bool := expiry.any (· < now)

theorem past_later (expiry : Option Int) (later : now ≤ instant) (gone : past now expiry = true) : past instant expiry = true := by
  cases expiry with
  | none => cases gone
  | some expiry =>
    simp only [past,Option.any_some,decide_eq_true_eq] at gone ⊢
    omega

section Views
variable {ρ κ β : Type} {key : ρ → κ} [DecidableEq κ] (value : ρ → β) (expiry : ρ → Option Int)

def view (table : Table key) (now : Int) (k : κ) : Option (β × Option Int) :=
  ((table.find k).filter fun row => !past now (expiry row)).map fun row => (value row,expiry row)

def Alike (now : Int) (one two : Table key) : Prop := ∀ k, view value expiry one now k = view value expiry two now k

variable {value expiry} {one two : Table key}

theorem view_some : view value expiry one now k = some (v,e) ↔
    ∃ row ∈ one.rows, key row = k ∧ past now (expiry row) = false ∧ value row = v ∧ expiry row = e := by
  simp [view,Option.filter_eq_some_iff,find_exact,and_assoc]

-- What has expired stays so.
theorem view_later (table : Table key) (later : now ≤ instant) (k : κ) :
    view value expiry table instant k = (view value expiry table now k).filter fun item => !past instant item.2 := by
  unfold view
  cases table.find k with
  | none => rfl
  | some row =>
    cases gone : past now (expiry row) with
    | false => simp [Option.filter_some,gone]
    | true => simp [Option.filter_some,gone,past_later (expiry row) later gone]

theorem alike_later (later : now ≤ instant) (alike : Alike value expiry now one two) : Alike value expiry instant one two := by
  intro k
  rw [view_later one later,view_later two later,alike k]

-- To collect what has expired by an instant of the past changes no view.
theorem view_collected (table : Table key) (earlier : before ≤ now) (k : κ) :
    view value expiry (table.deleteAll fun row => past before (expiry row)) now k = view value expiry table now k := by
  unfold view
  rw [find_deleteAll,Option.filter_filter]
  refine congrArg (Option.map _) ?_
  cases table.find k with
  | none => rfl
  | some row =>
    cases gone : past before (expiry row) with
    | false => simp [Option.filter_some,gone]
    | true => simp [Option.filter_some,gone,past_later (expiry row) earlier gone]

theorem view_delete (table : Table key) (k j : κ) :
    view value expiry (table.delete k fun _ => true) now j = if j = k then none else view value expiry table now j := by
  unfold view
  rw [find_delete]
  split
  · simp
  · rfl

theorem view_deleteAll (table : Table key) (gone : ρ → Bool) (kind : κ → Bool) (told : ∀ row, gone row = kind (key row)) (k : κ) :
    view value expiry (table.deleteAll gone) now k = if kind k then none else view value expiry table now k := by
  unfold view
  rw [find_deleteAll]
  cases held : table.find k with
  | none => simp
  | some row =>
    have named : gone row = kind k := (told row).trans (congrArg kind (find_exact.mp held).2)
    cases taken : kind k with
    | false => simp [Option.filter_some,named,taken]
    | true => simp [Option.filter_some,named,taken]

theorem view_put (table : Table key) (create : ρ) (update : ρ → ρ) (keeps : ∀ row, key row = key create → key (update row) = key create)
    (values : ∀ row, key row = key create → value (update row) = value create) (expiries : ∀ row, expiry (update row) = expiry create) (k : κ) :
    view value expiry (table.put create update keeps) now k =
      if k = key create then (if past now (expiry create) then none else some (value create,expiry create))
      else view value expiry table now k := by
  unfold view
  rw [find_put]
  by_cases mine : k = key create
  · subst mine
    rw [if_pos rfl,if_pos rfl]
    cases held : table.find (key create) with
    | none => cases gone : past now (expiry create) <;> simp [Option.filter_some,gone]
    | some row =>
      have named := (find_exact.mp held).2
      cases gone : past now (expiry create) <;> simp [Option.filter_some,gone,expiries,values row named]
  · rw [if_neg mine,if_neg mine]

end Views

def fresh (now : Int) (expiry : Option Int) : Bool := expiry.all (now < ·)

theorem fresh_present {expiry : Option Int} (unexpired : fresh now expiry = true) : past now expiry = false := by
  cases expiry with
  | none => rfl
  | some expiry =>
    simp only [fresh,Option.all_some,decide_eq_true_eq] at unexpired
    simp only [past,Option.any_some,decide_eq_false_iff_not]
    omega

-- A query leaves out what has expired, an entry already at its instant.
section Queries
variable {ρ κ β : Type} [LinearOrder κ] [DecidableEq κ] {key : ρ → κ} {value : ρ → β} {expiry : ρ → Option Int}

omit [LinearOrder κ] in
theorem query_view (table : Table key) (wanted : κ → Bool) (k : κ) (v : β) :
    (∃ row ∈ table.rows, (fresh now (expiry row) && wanted (key row)) = true ∧ key row = k ∧ value row = v) ↔
      ∃ e, view value expiry table now k = some (v,e) ∧ fresh now e = true ∧ wanted k = true := by
  constructor
  · intro present
    obtain ⟨row,member,chosen,rfl,rfl⟩ := present
    obtain ⟨unexpired,asked⟩ := Bool.and_eq_true_iff.mp chosen
    exact ⟨expiry row,view_some.mpr ⟨row,member,rfl,fresh_present unexpired,rfl,rfl⟩,unexpired,asked⟩
  · intro seen
    obtain ⟨e,held,unexpired,asked⟩ := seen
    obtain ⟨row,member,rfl,_,rfl,rfl⟩ := view_some.mp held
    exact ⟨row,member,Bool.and_eq_true_iff.mpr ⟨unexpired,asked⟩,rfl,rfl⟩

theorem query_alike {one two : Table key} (alike : Alike value expiry now one two) (wanted : κ → Bool) (reverse : Bool) (take : Option Int) :
    (one.select (fun row => fresh now (expiry row) && wanted (key row)) reverse take).map (fun row => (key row,value row)) =
      (two.select (fun row => fresh now (expiry row) && wanted (key row)) reverse take).map fun row => (key row,value row) := by
  refine select_agree value _ ?_ reverse take
  intro k v
  rw [query_view,query_view,alike k]

end Queries

end ExpiringRows
