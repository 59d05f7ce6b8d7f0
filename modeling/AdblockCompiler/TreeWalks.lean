import Mathlib

-- Trees told by what hangs below each node, the order in which a depth-first
-- walk meets their nodes, and walks that an answer ends.
namespace TreeWalks

-- The branches below a node with their names, no two names of a node alike.
structure Schema (α κ : Type) where
  branches : α → List (κ × α)
  size : α → Nat
  smaller : ∀ node, ∀ branch ∈ branches node, size branch.2 < size node
  distinct : ∀ node, ((branches node).map Prod.fst).Nodup

-- A node as a walk meets it: the names that lead to it and the node above.
structure Visit (α κ : Type) where
  path : List κ
  parent : Option α
  node : α

section Order
variable {α κ : Type}

def Visit.below (visit : Visit α κ) (branch : κ × α) : Visit α κ := ⟨visit.path ++ [branch.1],some visit.node,branch.2⟩

def Schema.preorder (schema : Schema α κ) (visit : Visit α κ) : List (Visit α κ) :=
  visit :: (schema.branches visit.node).flatMap fun branch => schema.preorder (visit.below branch)
termination_by schema.size visit.node
decreasing_by exact schema.smaller visit.node _ ‹_›

variable (schema : Schema α κ)

theorem preorder_eq (visit : Visit α κ) :
    schema.preorder visit = visit :: (schema.branches visit.node).flatMap fun branch => schema.preorder (visit.below branch) := by
  rw [Schema.preorder]

-- What can be met below a visit, by one branch after the other.
inductive Schema.Reaches (start : Visit α κ) : Visit α κ → Prop where
  | start : Schema.Reaches start start
  | step (before : Schema.Reaches start visit) (branch : below ∈ schema.branches visit.node) :
      Schema.Reaches start (visit.below below)

theorem reaches_down (branch : below ∈ schema.branches start.node) (later : schema.Reaches (start.below below) visit) :
    schema.Reaches start visit := by
  induction later with
  | start => exact .step .start branch
  | step _ more ih => exact .step ih more

theorem reaches_cases (later : schema.Reaches start visit) :
    visit = start ∨ ∃ below ∈ schema.branches start.node, schema.Reaches (start.below below) visit := by
  induction later with
  | start => exact .inl rfl
  | step _ more ih =>
    rename_i visit below _
    cases ih with
    | inl same =>
      subst same
      exact .inr ⟨below,more,.start⟩
    | inr further =>
      obtain ⟨first,branch,rest⟩ := further
      exact .inr ⟨first,branch,.step rest more⟩

-- The walk meets what can be met, and nothing else.
theorem preorder_reaches (start : Visit α κ) : visit ∈ schema.preorder start ↔ schema.Reaches start visit := by
  induction size : schema.size start.node using Nat.strongRecOn generalizing start with
  | ind n ih =>
    subst size
    have below (branch : κ × α) (member : branch ∈ schema.branches start.node) :
        visit ∈ schema.preorder (start.below branch) ↔ schema.Reaches (start.below branch) visit :=
      ih _ (schema.smaller start.node branch member) (start.below branch) rfl
    rw [preorder_eq,List.mem_cons,List.mem_flatMap]
    constructor
    · intro met
      cases met with
      | inl same =>
        subst same
        exact .start
      | inr further =>
        obtain ⟨branch,member,there⟩ := further
        exact reaches_down schema member ((below branch member).mp there)
    · intro reached
      cases reaches_cases schema reached with
      | inl same => exact .inl same
      | inr further =>
        obtain ⟨branch,member,rest⟩ := further
        exact .inr ⟨branch,member,(below branch member).mpr rest⟩

theorem reaches_path (reached : schema.Reaches start visit) : start.path <+: visit.path := by
  induction reached with
  | start => exact List.prefix_rfl
  | step _ _ ih => exact ih.trans (List.prefix_append _ _)

-- No node is met twice: the paths are all different.
theorem preorder_once (start : Visit α κ) : ((schema.preorder start).map Visit.path).Nodup := by
  induction size : schema.size start.node using Nat.strongRecOn generalizing start with
  | ind n ih =>
    subst size
    have under (branch : κ × α) (path : List κ) (member : path ∈ (schema.preorder (start.below branch)).map Visit.path) :
        start.path ++ [branch.1] <+: path := by
      obtain ⟨visit,met,rfl⟩ := List.mem_map.mp member
      exact reaches_path schema ((preorder_reaches schema _).mp met)
    rw [preorder_eq,List.map_cons,List.map_flatMap,List.nodup_cons,List.nodup_flatMap]
    refine ⟨?_,fun branch member => ih _ (schema.smaller start.node branch member) (start.below branch) rfl,?_⟩
    · intro met
      obtain ⟨branch,_,there⟩ := List.mem_flatMap.mp met
      have longer := (under branch _ there).length_le
      simp at longer
    · refine (List.pairwise_map.mp (schema.distinct start.node)).imp ?_
      intro one two different
      rw [Function.onFun,List.disjoint_left]
      intro path first second
      have same := List.prefix_of_prefix_length_le (under one path first) (under two path second) (by simp)
      have equal := same.eq_of_length (by simp)
      exact different (by simpa using equal)

end Order

section Sweeps
variable {α β σ : Type}

-- What changes a state and says whether to go on.
abbrev Step (σ : Type) := σ → Bool × σ

def goOn : Step σ := fun s => (true,s)

def andThen (first second : Step σ) : Step σ := fun s =>
  match first s with
  | (true,next) => second next
  | (false,next) => (false,next)

@[simp] theorem goOn_andThen (step : Step σ) : andThen goOn step = step := rfl

@[simp] theorem andThen_goOn (step : Step σ) : andThen step goOn = step := by
  funext s
  unfold andThen
  split <;> simp_all [goOn]

theorem andThen_assoc (one two three : Step σ) : andThen (andThen one two) three = andThen one (andThen two three) := by
  funext s
  simp only [andThen]
  rcases one s with ⟨_ | _,_⟩ <;> rfl

def sweep (consult : α → Step σ) : List α → Step σ
  | [] => goOn
  | item :: rest => andThen (consult item) (sweep consult rest)

@[simp] theorem sweep_nil (consult : α → Step σ) : sweep consult [] = goOn := rfl

@[simp] theorem sweep_cons (consult : α → Step σ) (item : α) (rest : List α) :
    sweep consult (item :: rest) = andThen (consult item) (sweep consult rest) := rfl

theorem sweep_append (consult : α → Step σ) (one two : List α) :
    sweep consult (one ++ two) = andThen (sweep consult one) (sweep consult two) := by
  induction one with
  | nil => simp
  | cons item rest ih => rw [List.cons_append,sweep_cons,ih,sweep_cons,andThen_assoc]

theorem sweep_flatMap (consult : β → Step σ) (f : α → List β) (items : List α) :
    sweep consult (items.flatMap f) = sweep (fun item => sweep consult (f item)) items := by
  induction items with
  | nil => simp
  | cons item rest ih => rw [List.flatMap_cons,sweep_append,ih,sweep_cons]

theorem sweep_map (consult : β → Step σ) (f : α → β) (items : List α) :
    sweep consult (items.map f) = sweep (fun item => consult (f item)) items := by
  induction items with
  | nil => rfl
  | cons item rest ih => rw [List.map_cons,sweep_cons,ih,sweep_cons]

theorem sweep_congr {one two : α → Step σ} {items : List α} (same : ∀ item ∈ items, one item = two item) :
    sweep one items = sweep two items := by
  induction items with
  | nil => rfl
  | cons item rest ih =>
    have first := same item (by simp)
    have others := ih fun later member => same later (List.mem_cons_of_mem _ member)
    rw [sweep_cons,first,others,sweep_cons]

-- The items that are consulted: all to the first that says stop, with that one.
def upTo (consult : α → Step σ) : List α → σ → List α
  | [],_ => []
  | item :: rest,s =>
    match consult item s with
    | (true,next) => item :: upTo consult rest next
    | (false,_) => [item]

-- The same with a list of the items that are heard of.
def recording (hears : α → Bool) (consult : α → Step σ) (item : α) : Step (σ × List α) := fun s =>
  let answer := consult item s.1
  (answer.1,answer.2,if hears item then s.2 ++ [item] else s.2)

theorem sweep_recording (hears : α → Bool) (consult : α → Step σ) (items : List α) (s : σ) (log : List α) :
    sweep (recording hears consult) items (s,log) =
      ((sweep consult items s).1,(sweep consult items s).2,log ++ (upTo consult items s).filter hears) := by
  induction items generalizing s log with
  | nil => simp [goOn,upTo]
  | cons item rest ih =>
    rw [sweep_cons,sweep_cons,andThen,andThen,recording,upTo]
    rcases consult item s with ⟨_ | _,next⟩
    · cases heard : hears item <;> simp [heard]
    · cases heard : hears item <;> simp [heard,ih]

end Sweeps
end TreeWalks
