import AdblockCompiler.FinishingOrder
import AdblockCompiler.PluginSystem

-- topologicalSort of the plugin system: the order in which a batch of plugins
-- is registered.
namespace AdblockCompiler.Plugins
open JsText FinishingOrder

-- The search of topologicalSort is a recursion that its arguments do not bound,
-- so it is given fuel; the last outcome is the one that is never met.
inductive Halt where
  | thrown (message : Text)
  | exhausted
  deriving DecidableEq, Repr

def missingMessage (name : Text) (missing : List Text) : Text :=
  "Plugin \"".toList ++ name ++ "\" depends on plugins not in the batch: ".toList ++ ", ".toList.intercalate missing

def circularMessage (name : Text) : Text :=
  "Circular plugin dependency detected involving \"".toList ++ name ++ "\"".toList

-- The sets of the search and the list it builds.
structure Sorting (Code : Type) where
  visited : List Text
  visiting : List Text
  ordered : List (Plugin Code)

section Sorting
variable {Code : Type} (plugins : List (Plugin Code))

-- What a Map holds under a name once every plugin was set: the last one.
def byName (name : Text) : Option (Plugin Code) := plugins.reverse.find? (·.manifest.name = name)

-- What the plugin of a name depends on, as far as there is one.
def dependenciesOf (name : Text) : List Text := ((byName plugins name).map (·.manifest.dependencies)).getD []

def missingOf (p : Plugin Code) : List Text := p.manifest.dependencies.filter fun dep => (byName plugins dep).isNone

def finish (name : Text) (s : Sorting Code) : Sorting Code :=
  { visited := s.visited ++ [name]
    visiting := s.visiting.filter (· ≠ name)
    ordered := s.ordered ++ (byName plugins name).toList }

def visit : Nat → Text → Sorting Code → Except Halt (Sorting Code)
  | 0,_,_ => .error .exhausted
  | fuel+1,name,s =>
    if name ∈ s.visited then .ok s
    else if name ∈ s.visiting then .error (.thrown (circularMessage name))
    else do
      let s ← (dependenciesOf plugins name).foldlM (fun s dep => visit fuel dep s) { s with visiting := name :: s.visiting }
      return finish plugins name s

def topologicalSort : Except Halt (List (Plugin Code)) :=
  match plugins.find? (missingOf plugins · ≠ []) with
  | some p => .error (.thrown (missingMessage p.manifest.name (missingOf plugins p)))
  | none => do
    let s ← plugins.foldlM (fun s p => visit plugins (plugins.length+1) p.manifest.name s) ⟨[],[],[]⟩
    return s.ordered

-- One name's plugin declares a dependency on the other.
def DependsOn (name dep : Text) : Prop := ∃ p ∈ plugins, p.manifest.name = name ∧ dep ∈ p.manifest.dependencies

def Missing : Prop := ∃ p ∈ plugins, ∃ dep ∈ p.manifest.dependencies, ∀ q ∈ plugins, q.manifest.name ≠ dep

def Circular : Prop := ∃ name, Relation.TransGen (DependsOn plugins) name name

-- Every plugin comes after one of each name it depends on.
def DependenciesFirst (sorted : List (Plugin Code)) : Prop :=
  ∀ before p after, sorted = before ++ p :: after → ∀ dep ∈ p.manifest.dependencies, ∃ q ∈ before, q.manifest.name = dep

end Sorting

section Names
variable {Code : Type} {plugins : List (Plugin Code)}

theorem byName_some (found : byName plugins name = some p) : p ∈ plugins ∧ p.manifest.name = name := by
  have own := List.find?_some found
  exact ⟨List.mem_reverse.mp (List.mem_of_find?_eq_some found),of_decide_eq_true own⟩

theorem byName_none : byName plugins name = none ↔ ∀ p ∈ plugins, p.manifest.name ≠ name := by
  simp [byName]

theorem byName_mem (distinct : (plugins.map (·.manifest.name)).Nodup) (member : p ∈ plugins) : byName plugins p.manifest.name = some p := by
  cases found : byName plugins p.manifest.name with
  | none => exact absurd rfl (byName_none.mp found p member)
  | some q =>
    obtain ⟨inside,same⟩ := byName_some found
    exact congrArg some (List.inj_on_of_nodup_map distinct inside member same)

theorem dependsOn_iff (distinct : (plugins.map (·.manifest.name)).Nodup) : Edge (dependenciesOf plugins) name dep ↔ DependsOn plugins name dep := by
  constructor
  · intro edge
    cases found : byName plugins name with
    | none => simp [Edge,dependenciesOf,found] at edge
    | some p =>
      obtain ⟨inside,same⟩ := byName_some found
      exact ⟨p,inside,same,by simpa [Edge,dependenciesOf,found] using edge⟩
  · intro depends
    obtain ⟨p,member,rfl,declared⟩ := depends
    simpa [Edge,dependenciesOf,byName_mem distinct member] using declared

-- The lists of a search and the plugins of what it has visited.
def listed (plugins : List (Plugin Code)) (s : Search Text) : Sorting Code :=
  ⟨s.visited,s.visiting,s.visited.filterMap (byName plugins)⟩

def halted : Stop Text → Halt
  | .circular name => .thrown (circularMessage name)
  | .exhausted => .exhausted

def settled (plugins : List (Plugin Code)) : Except (Stop Text) (Search Text) → Except Halt (Sorting Code)
  | .ok s => .ok (listed plugins s)
  | .error stop => .error (halted stop)

theorem fold_listed {fuel : Nat} (one : ∀ name s, visit plugins fuel name (listed plugins s) =
      settled plugins (FinishingOrder.visit (dependenciesOf plugins) fuel name s)) (names : List Text) (s : Search Text) :
    names.foldlM (fun s name => visit plugins fuel name s) (listed plugins s) =
      settled plugins (visitAll (dependenciesOf plugins) fuel names s) := by
  induction names generalizing s with
  | nil => rfl
  | cons name names ih =>
    rw [List.foldlM_cons,visitAll_cons,one]
    cases FinishingOrder.visit (dependenciesOf plugins) fuel name s with
    | error stop => rfl
    | ok middle => exact ih middle

theorem finish_listed (plugins : List (Plugin Code)) (name : Text) (s : Search Text) :
    finish plugins name (listed plugins s) = listed plugins ⟨s.visited ++ [name],s.visiting.filter (· ≠ name)⟩ := by
  have last : [name].filterMap (byName plugins) = (byName plugins name).toList := by
    cases found : byName plugins name with
    | none => simp [found]
    | some p => simp [found]
  rw [finish,listed,listed,List.filterMap_append,last]

theorem visit_listed (fuel : Nat) (name : Text) (s : Search Text) : visit plugins fuel name (listed plugins s) =
    settled plugins (FinishingOrder.visit (dependenciesOf plugins) fuel name s) := by
  induction fuel generalizing name s with
  | zero => rfl
  | succ fuel ih =>
    by_cases seen : name ∈ s.visited
    · rw [visit,if_pos (show name ∈ (listed plugins s).visited from seen),FinishingOrder.visit,if_pos seen]
      rfl
    · by_cases busy : name ∈ s.visiting
      · rw [visit,if_neg (show name ∉ (listed plugins s).visited from seen),if_pos (show name ∈ (listed plugins s).visiting from busy),
          FinishingOrder.visit,if_neg seen,if_pos busy]
        rfl
      · rw [visit,if_neg (show name ∉ (listed plugins s).visited from seen),if_neg (show name ∉ (listed plugins s).visiting from busy),
          visit_fresh fuel s seen busy]
        have nested := fold_listed ih (dependenciesOf plugins name) { s with visiting := name :: s.visiting }
        have opened : { listed plugins s with visiting := name :: (listed plugins s).visiting } =
            listed plugins { s with visiting := name :: s.visiting } := rfl
        rw [opened,nested]
        cases visitAll (dependenciesOf plugins) fuel (dependenciesOf plugins name) { s with visiting := name :: s.visiting } with
        | error stop => rfl
        | ok done => exact congrArg Except.ok (finish_listed plugins name done)

-- Where every visited name has a plugin, the plugins spell the names again.
theorem listed_names {names : List Text} (known : ∀ name ∈ names, ∃ p, byName plugins name = some p) :
    (names.filterMap (byName plugins)).map (·.manifest.name) = names := by
  induction names with
  | nil => rfl
  | cons name names ih =>
    obtain ⟨p,found⟩ := known name List.mem_cons_self
    rw [List.filterMap_cons_some found,List.map_cons,(byName_some found).2,ih fun other member => known other (List.mem_cons_of_mem name member)]

theorem plugins_listed (distinct : (plugins.map (·.manifest.name)).Nodup) :
    (plugins.map (·.manifest.name)).filterMap (byName plugins) = plugins := by
  rw [List.filterMap_map]
  have own : ∀ p ∈ plugins, (byName plugins ∘ (·.manifest.name)) p = some p := fun p member => byName_mem distinct member
  calc plugins.filterMap (byName plugins ∘ (·.manifest.name)) = plugins.filterMap some := List.filterMap_congr own
    _ = plugins := List.filterMap_some

end Names

section Sorted
variable {Code : Type} {plugins : List (Plugin Code)}

theorem missing_iff : Missing plugins ↔ ∃ p, plugins.find? (missingOf plugins · ≠ []) = some p := by
  constructor
  · intro missing
    obtain ⟨p,member,dep,declared,absent⟩ := missing
    cases found : plugins.find? (missingOf plugins · ≠ []) with
    | some q => exact ⟨q,rfl⟩
    | none =>
      have none_ : missingOf plugins p = [] := by simpa using List.find?_eq_none.mp found p member
      have lacks : dep ∈ missingOf plugins p := by
        refine List.mem_filter.mpr ⟨declared,?_⟩
        rw [byName_none.mpr absent]
        rfl
      rw [none_] at lacks
      cases lacks
  · intro found
    obtain ⟨p,found⟩ := found
    have some_ : missingOf plugins p ≠ [] := by simpa using List.find?_some found
    obtain ⟨dep,lacks⟩ := List.exists_mem_of_ne_nil _ some_
    obtain ⟨declared,absent⟩ := List.mem_filter.mp lacks
    exact ⟨p,List.mem_of_find?_eq_some found,dep,declared,byName_none.mp (by simpa using absent)⟩

theorem dependencies_closed (present : ¬Missing plugins) :
    ∀ name ∈ plugins.map (·.manifest.name), ∀ dep ∈ dependenciesOf plugins name, dep ∈ plugins.map (·.manifest.name) := by
  intro name _ dep edge
  cases found : byName plugins name with
  | none => simp [dependenciesOf,found] at edge
  | some p =>
    have declared : dep ∈ p.manifest.dependencies := by simpa [dependenciesOf,found] using edge
    by_contra absent
    refine present ⟨p,(byName_some found).1,dep,declared,?_⟩
    intro q member same
    exact absent (List.mem_map.mpr ⟨q,member,same⟩)

-- With nothing missing, sorting is the search of all names.
theorem sort_search (present : ¬Missing plugins) : topologicalSort plugins =
    (settled plugins (visitAll (dependenciesOf plugins) (plugins.length+1) (plugins.map (·.manifest.name)) ⟨[],[]⟩)).map Sorting.ordered := by
  have none_ : plugins.find? (missingOf plugins · ≠ []) = none := by
    cases found : plugins.find? (missingOf plugins · ≠ []) with
    | none => rfl
    | some p => exact absurd (missing_iff.mpr ⟨p,found⟩) present
  have each := @visit_listed _ plugins (plugins.length+1)
  have all := fold_listed each (plugins.map (·.manifest.name)) ⟨[],[]⟩
  rw [List.foldlM_map] at all
  rw [topologicalSort,none_,← all]
  rfl

theorem circular_iff (distinct : (plugins.map (·.manifest.name)).Nodup) :
    Circular plugins ↔ ∃ name, Relation.TransGen (Edge (dependenciesOf plugins)) name name := by
  have same : Edge (dependenciesOf plugins) = DependsOn plugins := by
    funext name dep
    exact propext (dependsOn_iff distinct)
  rw [same]
  exact Iff.rfl

theorem circle_inside (circle : Relation.TransGen (Edge (dependenciesOf plugins)) name other) : name ∈ plugins.map (·.manifest.name) := by
  obtain ⟨dep,edge,-⟩ := Relation.TransGen.head'_iff.mp circle
  cases found : byName plugins name with
  | none => simp [Edge,dependenciesOf,found] at edge
  | some p =>
    obtain ⟨inside,same⟩ := byName_some found
    exact List.mem_map.mpr ⟨p,inside,same⟩

-- A search that finishes lists the plugins, dependencies first.
theorem listed_sorted {visited : List Text} (distinct : (plugins.map (·.manifest.name)).Nodup)
    (whole : visited.Perm (plugins.map (·.manifest.name))) (ordered : Ordered (dependenciesOf plugins) visited) :
    (visited.filterMap (byName plugins)).Perm plugins ∧ DependenciesFirst (visited.filterMap (byName plugins)) := by
  constructor
  · calc (visited.filterMap (byName plugins)).Perm ((plugins.map (·.manifest.name)).filterMap (byName plugins)) := whole.filterMap _
      _ = plugins := plugins_listed distinct
  · intro before p after same dep declared
    have known : ∀ name ∈ visited, ∃ q, byName plugins name = some q := by
      intro name member
      obtain ⟨q,inside,rfl⟩ := List.mem_map.mp (whole.mem_iff.mp member)
      exact ⟨q,byName_mem distinct inside⟩
    have names : visited = before.map (·.manifest.name) ++ p.manifest.name :: after.map (·.manifest.name) := by
      rw [← listed_names known,same,List.map_append,List.map_cons]
    have inside : p ∈ plugins := by
      have listed_ : p ∈ visited.filterMap (byName plugins) := by
        rw [same]
        exact List.mem_append_right before List.mem_cons_self
      obtain ⟨name,-,found⟩ := List.mem_filterMap.mp listed_
      exact (byName_some found).1
    have earlier := ordered _ p.manifest.name _ names dep ((dependsOn_iff distinct).mpr ⟨p,inside,rfl,declared⟩)
    obtain ⟨q,member,same⟩ := List.mem_map.mp earlier
    exact ⟨q,member,same⟩

-- Sorting throws exactly for a dependency that is not in the batch and for a
-- circle; otherwise it gives the same plugins with dependencies first.
theorem sort_exact (plugins : List (Plugin Code)) (distinct : (plugins.map (·.manifest.name)).Nodup) :
    ((∃ message, topologicalSort plugins = .error (.thrown message)) ↔ Missing plugins ∨ Circular plugins) ∧
    (¬(Missing plugins ∨ Circular plugins) →
      ∃ sorted, topologicalSort plugins = .ok sorted ∧ sorted.Perm plugins ∧ DependenciesFirst sorted) := by
  by_cases missing : Missing plugins
  · obtain ⟨p,found⟩ := missing_iff.mp missing
    have thrown : topologicalSort plugins = .error (.thrown (missingMessage p.manifest.name (missingOf plugins p))) := by
      rw [topologicalSort,found]
    exact ⟨⟨fun _ => .inl missing,fun _ => ⟨_,thrown⟩⟩,fun neither => absurd (.inl missing) neither⟩
  · have closed := dependencies_closed missing
    have length : (plugins.map (·.manifest.name)).length = plugins.length := List.length_map _
    have sorted := sort_search missing
    cases searched : visitAll (dependenciesOf plugins) (plugins.length+1) (plugins.map (·.manifest.name)) ⟨[],[]⟩ with
    | error stop =>
      rw [← length] at searched
      obtain ⟨c,-,rfl,circle⟩ := search_fails closed searched
      rw [length] at searched
      have thrown : topologicalSort plugins = .error (.thrown (circularMessage c)) := by
        rw [sorted,searched]
        rfl
      have circular : Circular plugins := (circular_iff distinct).mpr ⟨c,circle⟩
      exact ⟨⟨fun _ => .inr circular,fun _ => ⟨_,thrown⟩⟩,fun neither => absurd (.inr circular) neither⟩
    | ok s =>
      have done : topologicalSort plugins = .ok (s.visited.filterMap (byName plugins)) := by
        rw [sorted,searched]
        rfl
      rw [← length] at searched
      obtain ⟨whole,ordered⟩ := search_succeeds closed distinct searched
      have straight : ¬Circular plugins := by
        intro circular
        obtain ⟨name,circle⟩ := (circular_iff distinct).mp circular
        exact ordered_acyclic ordered (whole.mem_iff.mpr (circle_inside circle)) circle
      refine ⟨⟨?_,?_⟩,fun _ => ⟨_,done,listed_sorted distinct whole ordered⟩⟩
      · intro thrown
        obtain ⟨message,thrown⟩ := thrown
        exact nomatch done.symm.trans thrown
      · intro either
        exact (either.elim missing straight).elim

end Sorted

def named (name : Text) (dependencies : List Text) : Plugin Unit := { manifest := { name, dependencies } }

-- A plugin registered before the one it depends on, and two in a circle.
theorem pair_sorted :
    (∃ sorted, topologicalSort [named ['b'] [['a']],named ['a'] []] = .ok sorted ∧
      sorted.Perm [named ['b'] [['a']],named ['a'] []] ∧ DependenciesFirst sorted) ∧
    ∃ message, topologicalSort [named ['b'] [['a']],named ['a'] [['b']]] = .error (.thrown message) := by
  constructor
  · refine (sort_exact [named ['b'] [['a']],named ['a'] []] (by decide)).2 ?_
    intro either
    obtain ⟨message,thrown⟩ := (sort_exact [named ['b'] [['a']],named ['a'] []] (by decide)).1.mpr either
    cases thrown
  · refine (sort_exact [named ['b'] [['a']],named ['a'] [['b']]] (by decide)).1.mpr (.inr ⟨['a'],?_⟩)
    have first : DependsOn [named ['b'] [['a']],named ['a'] [['b']]] ['a'] ['b'] := ⟨_,List.mem_cons_of_mem _ List.mem_cons_self,rfl,by decide⟩
    have second : DependsOn [named ['b'] [['a']],named ['a'] [['b']]] ['b'] ['a'] := ⟨_,List.mem_cons_self,rfl,by decide⟩
    exact .head first (.single second)

end AdblockCompiler.Plugins
