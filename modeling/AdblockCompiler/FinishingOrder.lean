import Mathlib

-- A depth-first search that lists each node after its successors and stops at a
-- node that is met again before it is finished.
namespace FinishingOrder

section Orders
variable {ν : Type} (succ : ν → List ν)

def Edge (v w : ν) : Prop := w ∈ succ v

-- Every node stands after all its successors.
def Ordered (vs : List ν) : Prop := ∀ before v after, vs = before ++ v :: after → ∀ w ∈ succ v, w ∈ before

variable {succ}

theorem ordered_nil : Ordered succ [] := by
  intro before v after same
  exact absurd same (by simp)

theorem ordered_append (ordered : Ordered succ vs) (finished : ∀ w ∈ succ v, w ∈ vs) : Ordered succ (vs ++ [v]) := by
  intro before u after same
  rcases List.eq_nil_or_concat after with rfl | ⟨front,last,rfl⟩
  · obtain ⟨rfl,single⟩ := List.append_inj' same rfl
    obtain ⟨rfl,-⟩ := List.cons.inj single
    exact finished
  · have whole : vs ++ [v] = (before ++ u :: front) ++ [last] := by simpa using same
    obtain ⟨rfl,-⟩ := List.append_inj' whole rfl
    exact ordered before u front rfl

theorem ordered_earlier [DecidableEq ν] (ordered : Ordered succ vs) (member : v ∈ vs) (edge : Edge succ v w) :
    w ∈ vs ∧ vs.idxOf w < vs.idxOf v := by
  obtain ⟨before,after,rfl,absent⟩ := List.eq_append_cons_of_mem member
  have earlier := ordered before v after rfl w edge
  refine ⟨List.mem_append_left _ earlier,?_⟩
  rw [List.idxOf_append_of_mem earlier,List.idxOf_append_of_notMem absent,List.idxOf_cons_self]
  exact Nat.lt_of_lt_of_le (List.idxOf_lt_length_of_mem earlier) (Nat.le_add_right _ _)

-- In an ordered list no node leads back to itself.
theorem ordered_acyclic [DecidableEq ν] (ordered : Ordered succ vs) (member : v ∈ vs) : ¬Relation.TransGen (Edge succ) v v := by
  have falls : ∀ w, Relation.TransGen (Edge succ) v w → w ∈ vs ∧ vs.idxOf w < vs.idxOf v := by
    intro w path
    induction path with
    | single edge => exact ordered_earlier ordered member edge
    | tail path edge ih =>
      obtain ⟨inside,less⟩ := ordered_earlier ordered ih.1 edge
      exact ⟨inside,less.trans ih.2⟩
  intro cycle
  exact Nat.lt_irrefl _ (falls v cycle).2

end Orders

-- visited lists the finished nodes in the order in which they were finished,
-- visiting the unfinished ones, the innermost first.
structure Search (ν : Type) where
  visited : List ν
  visiting : List ν

-- Why a search stops. It only runs out of fuel where too little is given.
inductive Stop (ν : Type) where
  | circular (v : ν)
  | exhausted

section Searching
variable {ν : Type} [DecidableEq ν] (succ : ν → List ν)

def visit : Nat → ν → Search ν → Except (Stop ν) (Search ν)
  | 0,_,_ => .error .exhausted
  | fuel+1,v,s =>
    if v ∈ s.visited then .ok s
    else if v ∈ s.visiting then .error (.circular v)
    else do
      let s ← (succ v).foldlM (fun s w => visit fuel w s) { s with visiting := v :: s.visiting }
      return ⟨s.visited ++ [v],s.visiting.filter (· ≠ v)⟩

def visitAll (fuel : Nat) (vs : List ν) (s : Search ν) : Except (Stop ν) (Search ν) := vs.foldlM (fun s v => visit succ fuel v s) s

variable {succ}

theorem visitAll_cons (fuel : Nat) (v : ν) (vs : List ν) (s : Search ν) :
    visitAll succ fuel (v :: vs) s = visit succ fuel v s >>= visitAll succ fuel vs := by
  unfold visitAll
  rw [List.foldlM_cons]

theorem visit_fresh (fuel : Nat) (s : Search ν) (fresh : v ∉ s.visited) (free : v ∉ s.visiting) : visit succ (fuel+1) v s =
    visitAll succ fuel (succ v) { s with visiting := v :: s.visiting } >>= fun s => .ok ⟨s.visited ++ [v],s.visiting.filter (· ≠ v)⟩ := by
  rw [visit,if_neg fresh,if_neg free]
  rfl

end Searching

section States
variable {ν : Type}

-- What holds of the finished nodes between visits.
structure Sound (succ : ν → List ν) (inside : ν → Prop) (s : Search ν) : Prop where
  once : s.visited.Nodup
  ordered : Ordered succ s.visited
  inside : ∀ v ∈ s.visited, inside v

-- What a visit that succeeds does.
structure Grows (s t : Search ν) : Prop where
  visiting : t.visiting = s.visiting
  kept : ∀ v ∈ s.visited, v ∈ t.visited
  apart : ∀ v ∈ t.visited, v ∈ s.visited ∨ v ∉ s.visiting

theorem grows_refl (s : Search ν) : Grows s s := ⟨rfl,fun _ member => member,fun _ member => .inl member⟩

theorem grows_trans (first : Grows s t) (second : Grows t u) : Grows s u := by
  refine ⟨second.visiting.trans first.visiting,fun v member => second.kept v (first.kept v member),?_⟩
  intro v member
  rcases second.apart v member with old | free
  · exact first.apart v old
  · exact .inr (first.visiting ▸ free)

end States

section Success
variable {ν : Type} [DecidableEq ν] {succ : ν → List ν} {inside : ν → Prop} (closed : ∀ v, inside v → ∀ w ∈ succ v, inside w)

def Succeeds (succ : ν → List ν) (inside : ν → Prop) (fuel : Nat) : Prop :=
  ∀ v s t, inside v → Sound succ inside s → visit succ fuel v s = .ok t → Sound succ inside t ∧ Grows s t ∧ v ∈ t.visited

theorem all_succeed (one : Succeeds succ inside fuel) (vs : List ν) (within : ∀ v ∈ vs, inside v) (sound : Sound succ inside s)
    (ran : visitAll succ fuel vs s = .ok t) : Sound succ inside t ∧ Grows s t ∧ ∀ v ∈ vs, v ∈ t.visited := by
  induction vs generalizing s with
  | nil =>
    obtain rfl := Except.ok.inj ran
    exact ⟨sound,grows_refl s,fun v none => by cases none⟩
  | cons v vs ih =>
    rw [visitAll_cons] at ran
    cases first : visit succ fuel v s with
    | error stop =>
      rw [first] at ran
      cases ran
    | ok middle =>
      rw [first] at ran
      obtain ⟨sound,grew,own⟩ := one v s middle (within v List.mem_cons_self) sound first
      obtain ⟨sound,more,rest⟩ := ih (fun w member => within w (List.mem_cons_of_mem v member)) sound ran
      refine ⟨sound,grows_trans grew more,?_⟩
      intro w member
      rcases List.mem_cons.mp member with rfl | later
      · exact more.kept w own
      · exact rest w later

include closed

theorem visit_succeeds (fuel : Nat) : Succeeds succ inside fuel := by
  induction fuel with
  | zero =>
    intro v s t _ _ ran
    cases ran
  | succ fuel ih =>
    intro v s t here sound ran
    by_cases seen : v ∈ s.visited
    · rw [visit,if_pos seen] at ran
      obtain rfl := Except.ok.inj ran
      exact ⟨sound,grows_refl s,seen⟩
    · by_cases busy : v ∈ s.visiting
      · rw [visit,if_neg seen,if_pos busy] at ran
        cases ran
      · rw [visit_fresh fuel s seen busy] at ran
        cases nested : visitAll succ fuel (succ v) { s with visiting := v :: s.visiting } with
        | error stop =>
          rw [nested] at ran
          cases ran
        | ok done =>
          rw [nested] at ran
          obtain rfl := Except.ok.inj ran
          have opened : Sound succ inside { s with visiting := v :: s.visiting } := ⟨sound.once,sound.ordered,sound.inside⟩
          obtain ⟨after,grew,finished⟩ := all_succeed ih (succ v) (closed v here) opened nested
          have absent : v ∉ done.visited := by
            intro member
            rcases grew.apart v member with old | free
            · exact seen old
            · exact free List.mem_cons_self
          refine ⟨⟨?_,ordered_append after.ordered finished,?_⟩,⟨?_,?_,?_⟩,?_⟩
          · exact List.nodup_append.mpr ⟨after.once,List.nodup_singleton v,fun w member u single same =>
              absent (List.mem_singleton.mp single ▸ same ▸ member)⟩
          · intro w member
            rcases List.mem_append.mp member with old | new
            · exact after.inside w old
            · rw [List.mem_singleton.mp new]
              exact here
          · rw [grew.visiting,List.filter_cons_of_neg (by simp)]
            exact List.filter_eq_self.mpr fun w member => by simpa using fun same : w = v => busy (same ▸ member)
          · intro w member
            exact List.mem_append_left _ (grew.kept w member)
          · intro w member
            rcases List.mem_append.mp member with old | new
            · rcases grew.apart w old with before | free
              · exact .inl before
              · exact .inr fun older => free (List.mem_cons_of_mem v older)
            · rw [List.mem_singleton.mp new]
              exact .inr busy
          · exact List.mem_append_right _ (List.mem_singleton_self v)

end Success

section Failure
variable {ν : Type} [DecidableEq ν] {succ : ν → List ν} {nodes : List ν} (closed : ∀ v ∈ nodes, ∀ w ∈ succ v, w ∈ nodes)

-- The unfinished nodes lead to the node that is visited next.
structure Leads (succ : ν → List ν) (nodes visiting : List ν) (v : ν) : Prop where
  once : visiting.Nodup
  inside : ∀ u ∈ visiting, u ∈ nodes
  path : ∀ u ∈ visiting, Relation.TransGen (Edge succ) u v

def Fails (succ : ν → List ν) (nodes : List ν) (fuel : Nat) : Prop :=
  ∀ v s stop, v ∈ nodes → Sound succ (· ∈ nodes) s → Leads succ nodes s.visiting v → nodes.length < fuel+s.visiting.length →
    visit succ fuel v s = .error stop → ∃ c ∈ nodes, stop = .circular c ∧ Relation.TransGen (Edge succ) c c

include closed

theorem all_fail (one : Fails succ nodes fuel) (vs : List ν) (within : ∀ v ∈ vs, v ∈ nodes) (sound : Sound succ (· ∈ nodes) s)
    (leads : ∀ v ∈ vs, Leads succ nodes s.visiting v) (enough : nodes.length < fuel+s.visiting.length)
    (ran : visitAll succ fuel vs s = .error stop) : ∃ c ∈ nodes, stop = .circular c ∧ Relation.TransGen (Edge succ) c c := by
  induction vs generalizing s with
  | nil => cases ran
  | cons v vs ih =>
    rw [visitAll_cons] at ran
    have here := within v List.mem_cons_self
    cases first : visit succ fuel v s with
    | error other =>
      rw [first] at ran
      obtain rfl := Except.error.inj ran
      exact one v s other here sound (leads v List.mem_cons_self) enough first
    | ok middle =>
      rw [first] at ran
      obtain ⟨sound,grew,-⟩ := visit_succeeds closed fuel v s middle here sound first
      refine ih (fun w member => within w (List.mem_cons_of_mem v member)) sound ?_ (grew.visiting ▸ enough) ran
      intro w member
      rw [grew.visiting]
      exact leads w (List.mem_cons_of_mem v member)

theorem visit_fails (fuel : Nat) : Fails succ nodes fuel := by
  induction fuel with
  | zero =>
    intro v s stop _ _ leads enough _
    have bound : s.visiting.length ≤ nodes.length := (leads.once.subperm leads.inside).length_le
    omega
  | succ fuel ih =>
    intro v s stop here sound leads enough ran
    by_cases seen : v ∈ s.visited
    · rw [visit,if_pos seen] at ran
      cases ran
    · by_cases busy : v ∈ s.visiting
      · rw [visit,if_neg seen,if_pos busy] at ran
        exact ⟨v,here,(Except.error.inj ran).symm,leads.path v busy⟩
      · rw [visit_fresh fuel s seen busy] at ran
        cases nested : visitAll succ fuel (succ v) { s with visiting := v :: s.visiting } with
        | ok done =>
          rw [nested] at ran
          cases ran
        | error other =>
          rw [nested] at ran
          obtain rfl := Except.error.inj ran
          refine all_fail closed ih (succ v) (closed v here) (s := { s with visiting := v :: s.visiting })
            ⟨sound.once,sound.ordered,sound.inside⟩ ?_ ?_ nested
          · intro w edge
            refine ⟨List.nodup_cons.mpr ⟨busy,leads.once⟩,List.forall_mem_cons.mpr ⟨here,leads.inside⟩,?_⟩
            refine List.forall_mem_cons.mpr ⟨.single edge,?_⟩
            intro u member
            exact (leads.path u member).tail edge
          · rw [List.length_cons]
            omega

end Failure

-- With a unit of fuel more than there are nodes the search of all nodes stops
-- exactly where they lead in a circle, and lists them all in order otherwise.
section Whole
variable {ν : Type} [DecidableEq ν] {succ : ν → List ν} {nodes : List ν} (closed : ∀ v ∈ nodes, ∀ w ∈ succ v, w ∈ nodes)
include closed

theorem search_fails (ran : visitAll succ (nodes.length+1) nodes ⟨[],[]⟩ = .error stop) :
    ∃ c ∈ nodes, stop = .circular c ∧ Relation.TransGen (Edge succ) c c := by
  refine all_fail closed (visit_fails closed _) nodes (fun _ member => member) ⟨List.nodup_nil,ordered_nil,?_⟩ ?_ ?_ ran
  · intro v none
    cases none
  · intro v _
    exact ⟨List.nodup_nil,fun u none => (by cases none),fun u none => by cases none⟩
  · rw [List.length_nil]
    omega

theorem search_succeeds (distinct : nodes.Nodup) (ran : visitAll succ (nodes.length+1) nodes ⟨[],[]⟩ = .ok t) :
    t.visited.Perm nodes ∧ Ordered succ t.visited := by
  obtain ⟨sound,-,all⟩ := all_succeed (visit_succeeds closed _) nodes (fun _ member => member) (s := ⟨[],[]⟩)
    ⟨List.nodup_nil,ordered_nil,fun v none => by cases none⟩ ran
  refine ⟨(List.perm_ext_iff_of_nodup sound.once distinct).mpr ?_,sound.ordered⟩
  intro v
  exact ⟨sound.inside v,all v⟩

end Whole

end FinishingOrder
