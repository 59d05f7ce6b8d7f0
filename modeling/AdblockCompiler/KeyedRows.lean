import Mathlib

-- Tables one column of which is UNIQUE, and what statements do to the row that
-- column finds.
namespace KeyedRows

structure Table (key : ρ → κ) where
  rows : List ρ
  unique : (rows.map key).Nodup

variable {ρ κ : Type} {key : ρ → κ}

theorem Table.same (table : Table key) (one : row ∈ table.rows) (two : other ∈ table.rows) (same : key row = key other) :
    row = other := List.inj_on_of_nodup_map table.unique one two same

theorem rows_ext {one other : Table key} (same : one.rows = other.rows) : one = other := by
  cases one
  cases other
  cases same
  rfl

-- ORDER BY the unique column, and as many rows as are asked for: from the end
-- for a negative number.
def taken (take : Option Int) (rows : List ρ) : List ρ :=
  match take with
  | none => rows
  | some n => if 0 ≤ n then rows.take n.toNat else rows.drop (rows.length-n.natAbs)

theorem taken_mem (member : row ∈ taken take rows) : row ∈ rows := by
  unfold taken at member
  split at member
  · exact member
  · split at member
    · exact List.mem_of_mem_take member
    · exact List.mem_of_mem_drop member

def Table.select [LE κ] [DecidableLE κ] (table : Table key) (wanted : ρ → Bool) (reverse : Bool) (take : Option Int) : List ρ :=
  taken take ((table.rows.filter wanted).insertionSort fun one two => if reverse then key two ≤ key one else key one ≤ key two)

theorem select_all [LE κ] [DecidableLE κ] {table : Table key} {wanted : ρ → Bool} :
    row ∈ table.select wanted reverse none ↔ row ∈ table.rows ∧ wanted row = true := by
  rw [Table.select,taken,List.mem_insertionSort,List.mem_filter]

theorem select_mem [LE κ] [DecidableLE κ] {table : Table key} {wanted : ρ → Bool} (member : row ∈ table.select wanted reverse take) :
    row ∈ table.rows ∧ wanted row = true := select_all.mp (taken_mem member : row ∈ table.select wanted reverse none)

variable [DecidableEq κ]

def Table.find (table : Table key) (k : κ) : Option ρ := table.rows.find? fun row => key row = k

theorem find_exact {table : Table key} : table.find k = some row ↔ row ∈ table.rows ∧ key row = k := by
  constructor
  · intro found
    exact ⟨List.mem_of_find?_eq_some found,of_decide_eq_true (List.find?_some (p := fun row => decide (key row = k)) found)⟩
  · intro holds
    obtain ⟨member,equal⟩ := holds
    cases found : table.find k with
    | none => exact absurd equal (by simpa using List.find?_eq_none.mp found row member)
    | some other =>
      have there := List.mem_of_find?_eq_some found
      have named : key other = k := by simpa using List.find?_some found
      exact congrArg some (table.same there member (named.trans equal.symm))

theorem find_none {table : Table key} : table.find k = none ↔ ∀ row ∈ table.rows, key row ≠ k := by
  simp [Table.find]

-- A selection by the unique column has one row at most.
theorem select_find (table : Table key) (k : κ) : table.rows.filter (fun row => key row = k) = (table.find k).toList := by
  obtain ⟨rows,unique⟩ := table
  unfold Table.find
  induction rows with
  | nil => rfl
  | cons row rows ih =>
    rw [List.map_cons,List.nodup_cons] at unique
    obtain ⟨new,rest⟩ := unique
    by_cases here : key row = k
    · have none : rows.filter (fun other => key other = k) = [] := by
        refine List.filter_eq_nil_iff.mpr ?_
        intro other member same
        have equal : key other = key row := (of_decide_eq_true same).trans here.symm
        exact new (equal ▸ List.mem_map_of_mem member)
      simp [here,none]
    · simpa [here] using ih rest

def Table.insert (table : Table key) (row : ρ) (fresh : table.find (key row) = none) : Table key where
  rows := table.rows ++ [row]
  unique := by
    rw [List.map_append,List.nodup_append']
    refine ⟨table.unique,List.nodup_singleton _,?_⟩
    rw [List.map_singleton,List.disjoint_singleton]
    intro member
    obtain ⟨other,there,same⟩ := List.mem_map.mp member
    exact find_none.mp fresh other there same

theorem find_insert (table : Table key) (row : ρ) (fresh : table.find (key row) = none) (k : κ) :
    (table.insert row fresh).find k = if k = key row then some row else table.find k := by
  simp only [Table.find,Table.insert,List.find?_append]
  by_cases mine : k = key row
  · subst mine
    rw [Table.find] at fresh
    simp [fresh]
  · have other : key row ≠ k := fun same => mine same.symm
    simp [mine,other]

def Table.update (table : Table key) (k : κ) (f : ρ → ρ) (keeps : ∀ row, key row = k → key (f row) = k) : Table key where
  rows := table.rows.map fun row => if key row = k then f row else row
  unique := by
    have same : (table.rows.map fun row => if key row = k then f row else row).map key = table.rows.map key := by
      rw [List.map_map]
      refine List.map_congr_left ?_
      intro row _
      rw [Function.comp_apply]
      split
      · exact (keeps row ‹_›).trans (Eq.symm ‹_›)
      · rfl
    rw [same]
    exact table.unique

theorem find_update (table : Table key) (k : κ) (f : ρ → ρ) (keeps : ∀ row, key row = k → key (f row) = k) (j : κ) :
    (table.update k f keeps).find j = if j = k then (table.find k).map f else table.find j := by
  simp only [Table.find,Table.update]
  induction table.rows with
  | nil => split <;> rfl
  | cons row rows ih =>
    rw [List.map_cons,List.find?_cons,ih]
    by_cases mine : key row = k
    · have kept := keeps row mine
      by_cases asked : j = k
      · simp [mine,kept,asked]
      · have other : k ≠ j := fun same => asked same.symm
        simp [mine,kept,asked,other]
    · by_cases asked : j = k
      · simp [mine,asked]
      · simp [mine,asked,List.find?_cons]

def Table.delete (table : Table key) (k : κ) (p : ρ → Bool) : Table key where
  rows := table.rows.filter fun row => !(key row = k && p row)
  unique := table.unique.sublist (List.filter_sublist.map key)

theorem find_delete (table : Table key) (k : κ) (p : ρ → Bool) (j : κ) :
    (table.delete k p).find j = if j = k then (table.find k).filter (fun row => !p row) else table.find j := by
  refine Option.ext ?_
  intro row
  rw [find_exact]
  by_cases asked : j = k
  · subst asked
    rw [if_pos rfl,Option.filter_eq_some_iff,find_exact]
    simp only [Table.delete,List.mem_filter]
    constructor
    · intro held
      obtain ⟨⟨member,spared⟩,named⟩ := held
      exact ⟨⟨member,named⟩,by simpa [named] using spared⟩
    · intro held
      obtain ⟨⟨member,named⟩,spared⟩ := held
      exact ⟨⟨member,by simpa [named] using spared⟩,named⟩
  · rw [if_neg asked,find_exact]
    simp only [Table.delete,List.mem_filter]
    constructor
    · intro held
      exact ⟨held.1.1,held.2⟩
    · intro held
      obtain ⟨member,named⟩ := held
      have other : key row ≠ k := fun same => asked (named.symm.trans same)
      exact ⟨⟨member,by simp [other]⟩,named⟩

-- INSERT .. ON CONFLICT DO UPDATE of every other column.
def Table.upsert (table : Table key) (row : ρ) : Table key :=
  if fresh : table.find (key row) = none then table.insert row fresh
  else table.update (key row) (fun _ => row) fun _ _ => rfl

theorem find_upsert (table : Table key) (row : ρ) (k : κ) :
    (table.upsert row).find k = if k = key row then some row else table.find k := by
  unfold Table.upsert
  split
  · apply find_insert
  · rename_i taken
    obtain ⟨old,held⟩ := Option.ne_none_iff_exists'.mp taken
    rw [find_update,held]
    rfl

-- INSERT .. ON CONFLICT DO NOTHING.
def Table.insertNew (table : Table key) (row : ρ) : Table key :=
  if fresh : table.find (key row) = none then table.insert row fresh else table

theorem find_insertNew (table : Table key) (row : ρ) (k : κ) :
    (table.insertNew row).find k = (table.find k).or (if k = key row then some row else none) := by
  unfold Table.insertNew
  split
  · rename_i fresh
    rw [find_insert]
    by_cases mine : k = key row
    · rw [if_pos mine,if_pos mine,mine,fresh]
      rfl
    · rw [if_neg mine,if_neg mine,Option.or_none]
  · rename_i taken
    obtain ⟨old,held⟩ := Option.ne_none_iff_exists'.mp taken
    by_cases mine : k = key row
    · rw [mine,held]
      rfl
    · rw [if_neg mine,Option.or_none]

-- The same with some columns of the old row kept.
def Table.put (table : Table key) (create : ρ) (update : ρ → ρ) (keeps : ∀ row, key row = key create → key (update row) = key create) :
    Table key :=
  if fresh : table.find (key create) = none then table.insert create fresh else table.update (key create) update keeps

theorem find_put (table : Table key) (create : ρ) (update : ρ → ρ)
    (keeps : ∀ row, key row = key create → key (update row) = key create) (k : κ) :
    (table.put create update keeps).find k = if k = key create then some ((table.find k).elim create update) else table.find k := by
  unfold Table.put
  split
  · rename_i fresh
    rw [find_insert]
    split
    · rename_i mine
      rw [mine,fresh]
      rfl
    · rfl
  · rename_i taken
    obtain ⟨old,held⟩ := Option.ne_none_iff_exists'.mp taken
    rw [find_update]
    split
    · rename_i mine
      rw [mine,held]
      rfl
    · rfl

-- DELETE of all rows of a kind.
def Table.deleteAll (table : Table key) (gone : ρ → Bool) : Table key where
  rows := table.rows.filter fun row => !gone row
  unique := table.unique.sublist (List.filter_sublist.map key)

theorem find_deleteAll (table : Table key) (gone : ρ → Bool) (k : κ) :
    (table.deleteAll gone).find k = (table.find k).filter fun row => !gone row := by
  cases held : table.find k with
  | none =>
    have none_ := find_none.mp held
    exact find_none.mpr fun row member => none_ row (List.mem_of_mem_filter member)
  | some row =>
    obtain ⟨member,mine⟩ := find_exact.mp held
    cases going : gone row with
    | false =>
      rw [Option.filter_some,going]
      exact find_exact.mpr ⟨List.mem_filter.mpr ⟨member,by simp [going]⟩,mine⟩
    | true =>
      rw [Option.filter_some,going]
      refine find_none.mpr ?_
      intro other kept same
      obtain ⟨inside,stays⟩ := List.mem_filter.mp kept
      rw [table.same inside member (same.trans mine.symm),going] at stays
      cases stays

-- Two tables with the same wanted rows answer a query alike.
section Queries
variable {β κ : Type} [LinearOrder κ] {key : ρ → κ}

def ordered (reverse : Bool) (one two : κ × β) : Prop := if reverse then two.1 ≤ one.1 else one.1 ≤ two.1

instance (reverse : Bool) : DecidableRel (ordered reverse : κ × β → κ × β → Prop) :=
  fun one two => inferInstanceAs (Decidable (if reverse then two.1 ≤ one.1 else one.1 ≤ two.1))

theorem ordered_total (reverse : Bool) (one two : κ × β) : ordered reverse one two ∨ ordered reverse two one := by
  unfold ordered
  cases reverse with
  | true => exact le_total two.1 one.1
  | false => exact le_total one.1 two.1

theorem ordered_trans {reverse : Bool} {one two three : κ × β} (first : ordered reverse one two) (second : ordered reverse two three) :
    ordered reverse one three := by
  unfold ordered at first second ⊢
  cases reverse with
  | true => exact le_trans second first
  | false => exact le_trans first second

theorem ordered_key {reverse : Bool} {one two : κ × β} (first : ordered reverse one two) (second : ordered reverse two one) : one.1 = two.1 := by
  unfold ordered at first second
  cases reverse with
  | true => exact le_antisymm second first
  | false => exact le_antisymm first second

theorem taken_map (f : ρ → β) (take : Option Int) (rows : List ρ) : (taken take rows).map f = taken take (rows.map f) := by
  unfold taken
  split
  · rfl
  · split
    · exact List.map_take
    · rw [List.map_drop,List.length_map]

theorem select_sorted (table : Table key) (value : ρ → β) (wanted : ρ → Bool) (reverse : Bool) (take : Option Int) :
    (table.select wanted reverse take).map (fun row => (key row,value row)) =
      taken take (((table.rows.filter wanted).map fun row => (key row,value row)).insertionSort (ordered reverse)) := by
  rw [Table.select,taken_map,List.map_insertionSort _ (ordered reverse)]
  intro one _ two _
  unfold ordered
  cases reverse <;> simp

theorem select_agree {one two : Table key} (value : ρ → β) (wanted : ρ → Bool)
    (same : ∀ k v, (∃ row ∈ one.rows, wanted row = true ∧ key row = k ∧ value row = v) ↔
      ∃ row ∈ two.rows, wanted row = true ∧ key row = k ∧ value row = v) (reverse : Bool) (take : Option Int) :
    (one.select wanted reverse take).map (fun row => (key row,value row)) =
      (two.select wanted reverse take).map fun row => (key row,value row) := by
  have total : Std.Total (ordered reverse : κ × β → κ × β → Prop) := ⟨ordered_total reverse⟩
  have trans : IsTrans (κ × β) (ordered reverse) := ⟨fun _ _ _ => ordered_trans⟩
  have keys (table : Table key) : (((table.rows.filter wanted).map fun row => (key row,value row)).map Prod.fst).Nodup := by
    rw [List.map_map]
    exact table.unique.sublist (List.filter_sublist.map key)
  have members (table : Table key) (k : κ) (v : β) : (k,v) ∈ (table.rows.filter wanted).map (fun row => (key row,value row)) ↔
      ∃ row ∈ table.rows, wanted row = true ∧ key row = k ∧ value row = v := by
    simp [and_assoc]
  have permuted : ((one.rows.filter wanted).map fun row => (key row,value row)).Perm
      ((two.rows.filter wanted).map fun row => (key row,value row)) := by
    refine (List.perm_ext_iff_of_nodup (keys one).of_map (keys two).of_map).mpr ?_
    intro pair
    exact (members one pair.1 pair.2).trans ((same pair.1 pair.2).trans (members two pair.1 pair.2).symm)
  rw [select_sorted,select_sorted]
  refine congrArg (taken take) (List.Perm.eq_of_pairwise ?_ (List.pairwise_insertionSort _ _) (List.pairwise_insertionSort _ _) ?_)
  · intro a b first second left_ right_
    have inOne := (List.mem_insertionSort _).mp first
    have inTwo := permuted.mem_iff.mpr ((List.mem_insertionSort _).mp second)
    exact List.inj_on_of_nodup_map (keys one) inOne inTwo (ordered_key left_ right_)
  · exact (List.perm_insertionSort _ _).trans (permuted.trans (List.perm_insertionSort _ _).symm)

end Queries

-- A map is such a table of pairs, in the order in which its keys came in.
section Entries
variable {α : Type}

abbrev Entries (κ α : Type) := Table (Prod.fst : κ × α → κ)

def Entries.empty : Entries κ α := ⟨[],List.nodup_nil⟩

def Entries.get (m : Entries κ α) (k : κ) : Option α := (m.find k).map Prod.snd
def Entries.set (m : Entries κ α) (entry : κ × α) : Entries κ α := m.upsert entry
def Entries.remove (m : Entries κ α) (k : κ) : Entries κ α := m.delete k fun _ => true

def Entries.setAll (m : Entries κ α) (entries : List (κ × α)) : Entries κ α := entries.foldl Entries.set m
def Entries.removeAll (m : Entries κ α) (keys : List κ) : Entries κ α := keys.foldl Entries.remove m

theorem get_set (m : Entries κ α) (entry : κ × α) (k : κ) : (m.set entry).get k = if k = entry.1 then some entry.2 else m.get k := by
  rw [Entries.get,Entries.set,find_upsert]
  split <;> rfl

theorem get_remove (m : Entries κ α) (j k : κ) : (m.remove j).get k = if k = j then none else m.get k := by
  rw [Entries.get,Entries.remove,find_delete]
  split
  · cases m.find j <;> rfl
  · rfl

theorem get_none {m : Entries κ α} : m.get k = none ↔ k ∉ m.rows.map Prod.fst := by
  rw [Entries.get,Option.map_eq_none_iff,find_none]
  constructor
  · intro absent member
    obtain ⟨row,inside,same⟩ := List.mem_map.mp member
    exact absent row inside same
  · intro absent row inside same
    exact absent (same ▸ List.mem_map_of_mem inside)

theorem get_some {m : Entries κ α} : m.get k = some value ↔ (k,value) ∈ m.rows := by
  rw [Entries.get,Option.map_eq_some_iff]
  constructor
  · rintro ⟨⟨found,held⟩,row,rfl⟩
    obtain ⟨inside,same⟩ := find_exact.mp row
    exact same ▸ inside
  · intro inside
    exact ⟨(k,value),find_exact.mpr ⟨inside,rfl⟩,rfl⟩

-- The rows outside some keys: what is set under one of these does not show.
def Entries.without (m : Entries κ α) (keys : List κ) : List (κ × α) := m.rows.filter fun row => row.1 ∉ keys

theorem without_set (m : Entries κ α) (listed : entry.1 ∈ keys) : (m.set entry).without keys = m.without keys := by
  unfold Entries.without Entries.set Table.upsert
  split
  · simp [Table.insert,listed]
  · simp only [Table.update,List.filter_map]
    have kept : ∀ row ∈ m.rows.filter ((fun row => decide (row.1 ∉ keys)) ∘ fun row => if row.1 = entry.1 then entry else row),
        (if row.1 = entry.1 then entry else row) = id row := by
      intro row member
      rw [List.mem_filter] at member
      split
      · rename_i same
        simp [same,listed] at member
      · rfl
    rw [List.map_congr_left kept,List.map_id]
    apply List.filter_congr
    intro row _
    rw [Function.comp_apply]
    split
    · rename_i same
      rw [same]
    · rfl

theorem without_setAll (m : Entries κ α) (entries : List (κ × α)) (listed : ∀ entry ∈ entries, entry.1 ∈ keys) :
    (m.setAll entries).without keys = m.without keys := by
  induction entries generalizing m with
  | nil => rfl
  | cons entry rest ih =>
    obtain ⟨first,others⟩ := List.forall_mem_cons.mp listed
    exact (ih (m.set entry) others).trans (without_set m first)

theorem removeAll_rows (m : Entries κ α) (keys : List κ) : (m.removeAll keys).rows = m.without keys := by
  induction keys generalizing m with
  | nil => simp [Entries.removeAll,Entries.without]
  | cons k keys ih =>
    rw [Entries.removeAll,List.foldl_cons]
    refine (ih (m.remove k)).trans ?_
    simp only [Entries.without,Entries.remove,Table.delete,List.filter_filter]
    apply List.filter_congr
    intro row _
    simp [Bool.and_comm]

-- Setting and then removing leaves what removing alone would have left.
theorem removeAll_setAll (m : Entries κ α) (entries : List (κ × α)) :
    (m.setAll entries).removeAll (entries.map Prod.fst) = m.removeAll (entries.map Prod.fst) := by
  apply rows_ext
  rw [removeAll_rows,removeAll_rows]
  exact without_setAll m entries fun entry member => List.mem_map_of_mem member

theorem get_removeAll (m : Entries κ α) (keys : List κ) (k : κ) : (m.removeAll keys).get k = if k ∈ keys then none else m.get k := by
  induction keys generalizing m with
  | nil => simp [Entries.removeAll]
  | cons j keys ih =>
    rw [Entries.removeAll,List.foldl_cons]
    refine (ih (m.remove j)).trans ?_
    rw [get_remove]
    by_cases later : k ∈ keys
    · simp [later]
    · by_cases here : k = j <;> simp [later,here]

theorem removeAll_exact (m : Entries κ α) (keys : List κ) : m.removeAll keys = m ↔ ∀ k ∈ keys, m.get k = none := by
  constructor
  · intro same k member
    rw [← same,get_removeAll,if_pos member]
  · intro absent
    apply rows_ext
    rw [removeAll_rows]
    apply List.filter_eq_self.mpr
    intro row inside
    rw [decide_eq_true_eq]
    intro listed
    exact get_none.mp (absent row.1 listed) (List.mem_map_of_mem inside)

theorem get_setAll_other (m : Entries κ α) (entries : List (κ × α)) (other : k ∉ entries.map Prod.fst) :
    (m.setAll entries).get k = m.get k := by
  induction entries generalizing m with
  | nil => rfl
  | cons entry rest ih =>
    rw [List.map_cons,List.mem_cons,not_or] at other
    refine (ih (m.set entry) other.2).trans ?_
    rw [get_set,if_neg other.1]

theorem get_setAll (m : Entries κ α) (entries : List (κ × α)) (distinct : (entries.map Prod.fst).Nodup) (member : (k,value) ∈ entries) :
    (m.setAll entries).get k = some value := by
  induction entries generalizing m with
  | nil => cases member
  | cons entry rest ih =>
    rw [List.map_cons,List.nodup_cons] at distinct
    rcases List.mem_cons.mp member with rfl | later
    · refine (get_setAll_other (m.set (k,value)) rest distinct.1).trans ?_
      rw [get_set,if_pos rfl]
    · exact ih (m.set entry) distinct.2 later

theorem set_same (m : Entries κ α) (held : m.get entry.1 = some entry.2) : m.set entry = m := by
  have inside := get_some.mp held
  apply rows_ext
  unfold Entries.set Table.upsert
  split
  · rename_i fresh
    exact absurd rfl (find_none.mp fresh entry inside)
  · simp only [Table.update]
    refine (List.map_congr_left ?_).trans (List.map_id m.rows)
    intro row member
    split
    · rename_i same
      exact (m.same member inside same).symm
    · rfl

theorem setAll_exact (m : Entries κ α) (entries : List (κ × α)) (distinct : (entries.map Prod.fst).Nodup) :
    m.setAll entries = m ↔ ∀ entry ∈ entries, m.get entry.1 = some entry.2 := by
  constructor
  · intro same entry member
    rw [← same]
    exact get_setAll m entries distinct member
  · intro held
    clear distinct
    induction entries with
    | nil => rfl
    | cons entry rest ih =>
      obtain ⟨first,others⟩ := List.forall_mem_cons.mp held
      rw [Entries.setAll,List.foldl_cons,set_same m first]
      exact ih others

end Entries

end KeyedRows
