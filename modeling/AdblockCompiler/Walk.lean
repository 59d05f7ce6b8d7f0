import Mathlib

namespace Walk

-- A depth-first walk that never opens a node twice and stops when no room is
-- left. Each opened node is kept with the room it leaves to its successors.
abbrev Opened (ν : Type) := List (ν × Nat)

def Opened.nodes (opened : Opened ν) : List ν := opened.map Prod.fst

-- How a node came to be opened: from a node with more room, back to the root.
inductive Trail (succ : ν → List ν) (root : ν) (limit : Nat) : List (ν × Nat) → Prop where
  | start : Trail succ root limit [(root,limit)]
  | step (before : Trail succ root limit ((u,room+1) :: rest)) (edge : w ∈ succ u) :
      Trail succ root limit ((w,room) :: (u,room+1) :: rest)

-- Reached by a chain of at most so many edges.
inductive Within (succ : ν → List ν) (root : ν) : Nat → ν → Prop where
  | start : Within succ root n root
  | step (before : Within succ root n u) (edge : w ∈ succ u) : Within succ root (n+1) w

section Trails
variable {succ : ν → List ν}

theorem within_more (near : Within succ root n v) (less : n ≤ m) : Within succ root m v := by
  induction near generalizing m with
  | start => exact .start
  | step before edge ih =>
    obtain ⟨m,rfl⟩ : ∃ k, m = k+1 := ⟨m-1,by omega⟩
    exact .step (ih (by omega)) edge

theorem trail_length (trail : Trail succ root limit ((v,room) :: rest)) : rest.length + room = limit := by
  generalize same : (v,room) :: rest = whole at trail
  induction trail generalizing v room rest with
  | start => cases same; simp
  | step before edge ih =>
    cases same
    have length := ih rfl
    simp only [List.length_cons]
    omega

theorem trail_within (trail : Trail succ root limit ((v,room) :: rest)) : Within succ root rest.length v := by
  generalize same : (v,room) :: rest = whole at trail
  induction trail generalizing v room rest with
  | start => cases same; exact .start
  | step before edge ih =>
    cases same
    exact .step (ih rfl) edge

-- Room only grows towards the root, so a trail passes each of its entries once.
theorem trail_rooms (trail : Trail succ root limit ((v,room) :: rest)) : ∀ entry ∈ rest, room < entry.2 := by
  generalize same : (v,room) :: rest = whole at trail
  induction trail generalizing v room rest with
  | start => cases same; simp
  | step before edge ih =>
    cases same
    intro entry member
    rcases List.mem_cons.mp member with rfl | older
    · exact Nat.lt_succ_self _
    · exact Nat.lt_trans (Nat.lt_succ_self _) (ih rfl entry older)

theorem trail_distinct (trail : Trail succ root limit entries) (opened : Opened ν) (distinct : opened.nodes.Nodup)
    (inside : entries ⊆ opened) : (entries.map Prod.fst).Nodup := by
  induction trail with
  | start => simp
  | @step u room rest w before edge ih =>
    have older : (u,room+1) :: rest ⊆ opened := fun entry member => inside (List.mem_cons_of_mem _ member)
    rw [List.map_cons,List.nodup_cons]
    refine ⟨?_,ih older⟩
    intro again
    obtain ⟨entry,member,same⟩ := List.mem_map.mp again
    have more := trail_rooms (.step before edge) entry member
    have one : entry ∈ opened := inside (List.mem_cons_of_mem _ member)
    have two : (w,room) ∈ opened := inside List.mem_cons_self
    have equal : entry = (w,room) := List.inj_on_of_nodup_map distinct one two same
    rw [equal] at more
    exact Nat.lt_irrefl _ more

end Trails

def walk [DecidableEq ν] (succ : ν → List ν) : Nat → ν → Opened ν → Opened ν
  | 0,_,opened => opened
  | room+1,v,opened =>
    if v ∈ opened.nodes then opened else (succ v).foldl (fun opened w => walk succ room w opened) ((v,room) :: opened)

def walkAll [DecidableEq ν] (succ : ν → List ν) (room : Nat) (vs : List ν) (opened : Opened ν) : Opened ν :=
  vs.foldl (fun opened w => walk succ room w opened) opened

section Rules
variable [DecidableEq ν] (succ : ν → List ν)

theorem walk_seen (room : Nat) (seen : v ∈ opened.nodes) : walk succ room v opened = opened := by
  cases room with
  | zero => rfl
  | succ room => rw [walk,if_pos seen]

theorem walk_fresh (room : Nat) (fresh : v ∉ opened.nodes) :
    walk succ (room+1) v opened = walkAll succ room (succ v) ((v,room) :: opened) := by
  rw [walk,if_neg fresh]
  rfl

theorem walkAll_cons (room : Nat) (v : ν) (vs : List ν) (opened : Opened ν) :
    walkAll succ room (v :: vs) opened = walkAll succ room vs (walk succ room v opened) := rfl

-- What one node's walk does to the opened nodes, a walk over several does.
theorem walkAll_relation (R : Opened ν → Opened ν → Prop) (refl : ∀ s, R s s) (trans : ∀ a b c, R a b → R b c → R a c)
    (room : Nat) (vs : List ν) (opened : Opened ν)
    (step : ∀ v ∈ vs, ∀ s, R opened s → R s (walk succ room v s)) : R opened (walkAll succ room vs opened) := by
  induction vs generalizing opened with
  | nil => exact refl opened
  | cons v vs ih =>
    have first := step v List.mem_cons_self opened (refl opened)
    rw [walkAll_cons]
    refine trans _ _ _ first (ih _ ?_)
    intro w member s later
    exact step w (List.mem_cons_of_mem _ member) s (trans _ _ _ first later)

theorem walk_extends (room : Nat) : ∀ (v : ν) (opened : Opened ν), ∃ new, walk succ room v opened = new ++ opened := by
  induction room with
  | zero =>
    intro v opened
    exact ⟨[],rfl⟩
  | succ room ih =>
    intro v opened
    by_cases seen : v ∈ opened.nodes
    · exact ⟨[],walk_seen succ (room+1) seen⟩
    · have rest := walkAll_relation succ (fun before after => ∃ new, after = new ++ before) (fun s => ⟨[],rfl⟩)
        (fun a b c ⟨one,first⟩ ⟨two,second⟩ => ⟨two ++ one,by rw [second,first,List.append_assoc]⟩) room (succ v)
        ((v,room) :: opened) (fun w _ s _ => ih w s)
      obtain ⟨new,same⟩ := rest
      exact ⟨new ++ [(v,room)],by rw [walk_fresh succ room seen,same,List.append_assoc]; rfl⟩

theorem walk_grows (room : Nat) (v : ν) (opened : Opened ν) : opened ⊆ walk succ room v opened := by
  obtain ⟨new,same⟩ := walk_extends succ room v opened
  rw [same]
  exact List.subset_append_right new opened

theorem walkAll_grows (room : Nat) (vs : List ν) (opened : Opened ν) : opened ⊆ walkAll succ room vs opened :=
  walkAll_relation succ (fun before after : Opened ν => before ⊆ after) List.Subset.refl (fun _ _ _ => List.Subset.trans) room vs opened
    fun w _ s _ => walk_grows succ room w s

theorem walk_nodup (room : Nat) : ∀ (v : ν) (opened : Opened ν), opened.nodes.Nodup → (walk succ room v opened).nodes.Nodup := by
  induction room with
  | zero =>
    intro v opened distinct
    exact distinct
  | succ room ih =>
    intro v opened distinct
    by_cases seen : v ∈ opened.nodes
    · rw [walk_seen succ (room+1) seen]
      exact distinct
    · rw [walk_fresh succ room seen]
      refine walkAll_relation succ (fun before after => before.nodes.Nodup → after.nodes.Nodup) (fun _ => id)
        (fun _ _ _ one two => two ∘ one) room (succ v) _ (fun w _ s _ => ih w s) ?_
      exact List.nodup_cons.mpr ⟨seen,distinct⟩

end Rules

section Exploration
variable (succ : ν → List ν) (root : ν) (limit : Nat)

-- What a walk achieves between two states: nothing is forgotten, every node it
-- opens with room left has its successors opened, and has a trail.
structure Explored (before after : Opened ν) : Prop where
  grows : before ⊆ after
  closed : ∀ u room w, (u,room+1) ∈ after → (u,room+1) ∉ before → w ∈ succ u → w ∈ after.nodes
  trails : ∀ entry ∈ after, entry ∉ before → ∃ rest, Trail succ root limit (entry :: rest) ∧ rest ⊆ after

variable {succ} {root} {limit}

theorem nodes_grow {before after : Opened ν} (grows : before ⊆ after) (member : w ∈ before.nodes) : w ∈ after.nodes := by
  obtain ⟨entry,old,rfl⟩ := List.mem_map.mp member
  exact List.mem_map_of_mem (grows old)

theorem explored_refl (s : Opened ν) : Explored succ root limit s s :=
  ⟨List.Subset.refl s,fun _ _ _ new old => absurd new old,fun _ new old => absurd new old⟩

theorem explored_trans (one : Explored succ root limit a b) (two : Explored succ root limit b c) :
    Explored succ root limit a c := by
  refine ⟨List.Subset.trans one.grows two.grows,?_,?_⟩
  · intro u room w last fresh edge
    by_cases middle : (u,room+1) ∈ b
    · exact nodes_grow two.grows (one.closed u room w middle fresh edge)
    · exact two.closed u room w last middle edge
  · intro entry last fresh
    by_cases middle : entry ∈ b
    · obtain ⟨rest,trail,inside⟩ := one.trails entry middle fresh
      exact ⟨rest,trail,List.Subset.trans inside two.grows⟩
    · exact two.trails entry last middle

variable [DecidableEq ν]

theorem walk_opens (room : Nat) (v : ν) (opened : Opened ν) : v ∈ (walk succ (room+1) v opened).nodes := by
  by_cases seen : v ∈ opened.nodes
  · rw [walk_seen succ (room+1) seen]
    exact seen
  · rw [walk_fresh succ room seen]
    exact nodes_grow (walkAll_grows succ room (succ v) ((v,room) :: opened)) List.mem_cons_self

theorem walkAll_opens (room : Nat) (member : w ∈ vs) (opened : Opened ν) :
    w ∈ (walkAll succ (room+1) vs opened).nodes := by
  induction vs generalizing opened with
  | nil => cases member
  | cons v vs ih =>
    rw [walkAll_cons]
    rcases List.mem_cons.mp member with rfl | later
    · have grown := walkAll_relation succ (fun before after : Opened ν => before ⊆ after) List.Subset.refl
        (fun _ _ _ => List.Subset.trans) (room+1) vs (walk succ (room+1) w opened)
        (fun w _ s _ => walk_grows succ (room+1) w s)
      exact nodes_grow grown (walk_opens room w opened)
    · exact ih later _

-- One node: its trail comes from the caller, its successors are walked next.
theorem walk_explored (room : Nat) : ∀ (v : ν) (opened : Opened ν),
    (∀ left, room = left+1 → ∃ rest, Trail succ root limit ((v,left) :: rest) ∧ rest ⊆ opened) →
    Explored succ root limit opened (walk succ room v opened) := by
  induction room with
  | zero =>
    intro v opened _
    exact explored_refl opened
  | succ room ih =>
    intro v opened arrived
    by_cases seen : v ∈ opened.nodes
    · rw [walk_seen succ (room+1) seen]
      exact explored_refl opened
    · rw [walk_fresh succ room seen]
      obtain ⟨rest,trail,inside⟩ := arrived room rfl
      have rest_explored : Explored succ root limit ((v,room) :: opened) (walkAll succ room (succ v) ((v,room) :: opened)) := by
        have both := walkAll_relation succ
          (fun before after : Opened ν => (v,room) :: opened ⊆ before → Explored succ root limit before after ∧ before ⊆ after)
          (fun s _ => ⟨explored_refl s,List.Subset.refl s⟩)
          (fun a b c one two base => ⟨explored_trans (one base).1 (two (List.Subset.trans base (one base).2)).1,
            List.Subset.trans (one base).2 (two (List.Subset.trans base (one base).2)).2⟩)
          room (succ v) ((v,room) :: opened) (by
            intro w edge s _ base
            refine ⟨ih w s ?_,walk_grows succ room w s⟩
            intro left same
            subst same
            exact ⟨(v,left+1) :: rest,.step trail edge,List.cons_subset.mpr
              ⟨base List.mem_cons_self,List.Subset.trans inside (fun entry old => base (List.mem_cons_of_mem _ old))⟩⟩)
        exact (both (List.Subset.refl _)).1
      refine ⟨fun entry old => rest_explored.grows (List.mem_cons_of_mem _ old),?_,?_⟩
      · intro u left w last fresh edge
        by_cases this : (u,left+1) = (v,room)
        · cases this
          exact walkAll_opens left edge _
        · exact rest_explored.closed u left w last (by simp [this,fresh]) edge
      · intro entry last fresh
        by_cases this : entry = (v,room)
        · subst this
          exact ⟨rest,trail,fun e old => rest_explored.grows (List.mem_cons_of_mem _ (inside old))⟩
        · exact rest_explored.trails entry last (by simp [this,fresh])

end Exploration

section Completeness
variable [DecidableEq ν] {succ : ν → List ν} {root : ν} {limit : Nat}

theorem explored_root : Explored succ root limit [] (walk succ (limit+1) root []) := by
  apply walk_explored
  intro left same
  cases same
  exact ⟨[],.start,List.Subset.refl []⟩

-- A node is opened exactly if it is the root or a successor of a node that was
-- opened with room left.
theorem opened_exact (v : ν) : v ∈ (walk succ (limit+1) root []).nodes ↔
    v = root ∨ ∃ u room, (u,room+1) ∈ walk succ (limit+1) root [] ∧ v ∈ succ u := by
  have explored : Explored succ root limit [] (walk succ (limit+1) root []) := explored_root
  constructor
  · intro member
    obtain ⟨entry,last,rfl⟩ := List.mem_map.mp member
    obtain ⟨rest,trail,inside⟩ := explored.trails entry last List.not_mem_nil
    cases trail with
    | start => exact .inl rfl
    | step before edge => exact .inr ⟨_,_,inside List.mem_cons_self,edge⟩
  · intro either
    rcases either with rfl | ⟨u,room,last,edge⟩
    · exact walk_opens limit v []
    · exact explored.closed u room v last List.not_mem_nil edge

theorem opened_within (member : v ∈ (walk succ (limit+1) root []).nodes) : Within succ root limit v := by
  obtain ⟨⟨v,room⟩,last,rfl⟩ := List.mem_map.mp member
  obtain ⟨rest,trail,-⟩ := explored_root.trails (v,room) last List.not_mem_nil
  have length := trail_length trail
  exact within_more (trail_within trail) (by omega)

-- On the graph alone: the walk misses nothing near if no simple trail of full
-- length ends at a node with a near successor off the trail.
theorem opened_complete
    (clear : ∀ u rest w, Trail succ root limit ((u,0) :: rest) → (((u,0) :: rest).map Prod.fst).Nodup →
      w ∈ succ u → Within succ root limit w → w ∈ ((u,0) :: rest).map Prod.fst)
    (near : Within succ root n v) (inside : n ≤ limit) : v ∈ (walk succ (limit+1) root []).nodes := by
  induction near with
  | start => exact walk_opens limit root []
  | @step u n w before edge ih =>
    have explored : Explored succ root limit [] (walk succ (limit+1) root []) := explored_root
    obtain ⟨⟨u,room⟩,last,rfl⟩ := List.mem_map.mp (ih (by omega))
    cases room with
    | succ room => exact explored.closed u room w last List.not_mem_nil edge
    | zero =>
      obtain ⟨rest,trail,older⟩ := explored.trails (u,0) last List.not_mem_nil
      have entries : (u,0) :: rest ⊆ walk succ (limit+1) root [] := List.cons_subset.mpr ⟨last,older⟩
      have distinct := trail_distinct trail _ (walk_nodup succ (limit+1) root [] List.nodup_nil) entries
      have near := within_more (.step before edge) inside
      exact nodes_grow entries (clear u rest w trail distinct edge near)

end Completeness

end Walk
