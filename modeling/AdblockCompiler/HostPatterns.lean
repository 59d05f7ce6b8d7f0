import Mathlib

namespace HostPatterns

section Names
variable {α : Type} (dot : α)

-- A part of a dotted name begins at the name's own start or after a dot.
def Within (part name : List α) : Prop := part = name ∨ ∃ front, name = front ++ dot :: part

theorem within_refl (name : List α) : Within dot name name := .inl rfl

theorem within_trans (inner : Within dot low mid) (outer : Within dot mid high) : Within dot low high := by
  rcases inner with rfl | ⟨front,rfl⟩
  · exact outer
  · rcases outer with rfl | ⟨before,rfl⟩
    · exact .inr ⟨front,rfl⟩
    · exact .inr ⟨before ++ dot :: front,by simp⟩

theorem within_length (inside : Within dot part name) : part.length ≤ name.length := by
  rcases inside with rfl | ⟨front,rfl⟩
  · exact Nat.le_refl _
  · simp only [List.length_append,List.length_cons]
    omega

theorem within_append (inside : Within dot part name) (more : List α) : Within dot (part ++ more) (name ++ more) := by
  rcases inside with rfl | ⟨front,rfl⟩
  · exact within_refl dot _
  · exact .inr ⟨front,by simp⟩

-- Padding a name by a letter that is no dot pads each of its parts.
theorem within_padded (other : letter ≠ dot) (inside : Within dot part (name ++ List.replicate count letter)) :
    ∃ start, part = start ++ List.replicate count letter ∧ Within dot start name := by
  rcases inside with rfl | ⟨front,same⟩
  · exact ⟨name,rfl,within_refl dot name⟩
  · rcases List.append_eq_append_iff.mp same with ⟨rest,_,late⟩ | ⟨rest,early,tail⟩
    · have dotted : dot ∈ List.replicate count letter := by rw [late]; simp
      exact absurd (List.eq_of_mem_replicate dotted).symm other
    · cases rest with
      | nil =>
        have dotted : dot ∈ List.replicate count letter := by
          rw [List.nil_append] at tail
          rw [← tail]
          simp
        exact absurd (List.eq_of_mem_replicate dotted).symm other
      | cons c start =>
        obtain ⟨rfl,rfl⟩ := List.cons.inj tail
        exact ⟨start,rfl,.inr ⟨front,early⟩⟩

-- Leaving out leading labels gives a part.
theorem within_join (labels : List (List α)) (inside : j < labels.length) :
    Within dot ([dot].intercalate (labels.drop j)) ([dot].intercalate labels) := by
  induction labels generalizing j with
  | nil => cases inside
  | cons label rest ih =>
    cases j with
    | zero => exact within_refl dot _
    | succ j =>
      have more : j < rest.length := Nat.lt_of_succ_lt_succ inside
      have nonempty : rest ≠ [] := List.ne_nil_of_length_pos (Nat.zero_lt_of_lt more)
      apply within_trans dot (ih more)
      exact .inr ⟨label,by rw [List.intercalate_cons_of_ne_nil nonempty,List.append_assoc,List.singleton_append]⟩

theorem join_shorter (labels : List (List α)) (inside : j+1 < labels.length) :
    ([dot].intercalate (labels.drop (j+1))).length < ([dot].intercalate labels).length := by
  cases labels with
  | nil => cases inside
  | cons label rest =>
    have more : j < rest.length := Nat.lt_of_succ_lt_succ inside
    have nonempty : rest ≠ [] := List.ne_nil_of_length_pos (Nat.zero_lt_of_lt more)
    have low := within_length dot (within_join dot rest more)
    rw [List.drop_succ_cons,List.intercalate_cons_of_ne_nil nonempty]
    simp only [List.length_append,List.length_singleton]
    omega

variable [DecidableEq α]

-- The parts after each dot, the longest first.
def parents : List α → List (List α)
  | [] => []
  | c :: rest => if c = dot then rest :: parents rest else parents rest

theorem mem_parents : part ∈ parents dot name ↔ ∃ front, name = front ++ dot :: part := by
  induction name with
  | nil => simp [parents]
  | cons c rest ih =>
    have later : (∃ front, c :: rest = front ++ dot :: part) ↔
        (c = dot ∧ rest = part) ∨ ∃ front, rest = front ++ dot :: part := by
      constructor
      · intro given
        obtain ⟨front,same⟩ := given
        cases front with
        | nil => exact .inl (List.cons.inj same)
        | cons d front => exact .inr ⟨front,(List.cons.inj same).2⟩
      · rintro (⟨rfl,rfl⟩ | ⟨front,rfl⟩)
        · exact ⟨[],rfl⟩
        · exact ⟨c :: front,rfl⟩
    rw [later,← ih]
    by_cases here : c = dot
    · simp [parents,here,eq_comm]
    · simp [parents,here]

theorem within_exact : Within dot part name ↔ part = name ∨ part ∈ parents dot name := by
  rw [mem_parents,Within]

theorem parents_shorter (above : part ∈ parents dot name) : part.length < name.length := by
  obtain ⟨front,rfl⟩ := (mem_parents dot).mp above
  simp only [List.length_append,List.length_cons]
  omega

end Names

section Roots
variable {α : Type} (dot : α)

-- Climbing from a listed name to listed parents ends at one that has none.
theorem root_above (up : List α → List (List α)) (narrow : ∀ name, ∀ part ∈ up name, Within dot part name)
    (shorter : ∀ name, ∀ part ∈ up name, part.length < name.length) (listed : List α → Prop) (start : listed name) :
    ∃ root, listed root ∧ Within dot root name ∧ ∀ part ∈ up root, ¬ listed part := by
  induction bound : name.length using Nat.strong_induction_on generalizing name with
  | _ size ih =>
    by_cases top : ∀ part ∈ up name, ¬ listed part
    · exact ⟨name,start,within_refl dot name,top⟩
    · push Not at top
      obtain ⟨part,above,also⟩ := top
      obtain ⟨root,found,inside,done⟩ := ih part.length (bound ▸ shorter name part above) also rfl
      exact ⟨root,found,within_trans dot inside (narrow name part above),done⟩

end Roots

-- `||host^` is closed: it blocks the host and what lies below it. `||host` is
-- open: the host may also go on in its last label.
structure Pattern (α : Type) where
  closed : Bool
  host : List α
  deriving DecidableEq

section Blocking
variable {α : Type} (dot : α)

def Pattern.Blocks (p : Pattern α) (name : List α) : Prop :=
  ∃ part, Within dot part name ∧ if p.closed then part = p.host else p.host <+: part

-- The upper pattern blocks whatever the lower one does.
def Pattern.Above (q p : Pattern α) : Prop := q.Blocks dot p.host ∧ (q.closed = true → p.closed = true)

theorem closed_blocks : Pattern.Blocks dot ⟨true,host⟩ name ↔ Within dot host name := by
  simp [Pattern.Blocks]

theorem blocks_own (p : Pattern α) : p.Blocks dot p.host := by
  refine ⟨p.host,within_refl dot p.host,?_⟩
  cases p.closed <;> simp

theorem blocks_below (p : Pattern α) (blocked : p.Blocks dot name) (inside : Within dot name low) : p.Blocks dot low := by
  obtain ⟨part,below,meets⟩ := blocked
  exact ⟨part,within_trans dot below inside,meets⟩

theorem open_blocks_append (blocked : Pattern.Blocks dot ⟨false,host⟩ name) (more : List α) :
    Pattern.Blocks dot ⟨false,host⟩ (name ++ more) := by
  obtain ⟨part,inside,first⟩ := blocked
  exact ⟨part ++ more,within_append dot inside more,first.trans (List.prefix_append part more)⟩

theorem above_within (q : Pattern α) (inside : Within dot q.host host) : q.Above dot ⟨true,host⟩ :=
  ⟨blocks_below dot q (blocks_own dot q) inside,fun _ => rfl⟩

theorem above_blocks (q p : Pattern α) (above : q.Above dot p) (blocked : p.Blocks dot name) : q.Blocks dot name := by
  obtain ⟨closed,host⟩ := p
  obtain ⟨own,kind⟩ := above
  cases closed with
  | true => exact blocks_below dot q own ((closed_blocks dot).mp blocked)
  | false =>
    obtain ⟨part,inside,rest,rfl⟩ := blocked
    obtain ⟨upper,top⟩ := q
    cases upper with
    | true => exact absurd (kind rfl) Bool.false_ne_true
    | false => exact blocks_below dot _ (open_blocks_append dot own rest) inside

-- Padding by a letter that no open pattern uses tells which patterns block
-- every name of an open one: only an open pattern can.
theorem blocks_padded (q : Pattern α) (other : letter ≠ dot) (unused : q.closed = false → letter ∉ q.host)
    (long : q.host.length < count) (blocked : q.Blocks dot (host ++ List.replicate count letter)) :
    q.closed = false ∧ q.Blocks dot host := by
  obtain ⟨part,inside,meets⟩ := blocked
  obtain ⟨start,rfl,low⟩ := within_padded dot other inside
  cases shape : q.closed with
  | true =>
    simp only [shape,if_true] at meets
    have size := congrArg List.length meets
    simp only [List.length_append,List.length_replicate] at size
    omega
  | false =>
    simp only [shape,Bool.false_eq_true,if_false] at meets
    refine ⟨rfl,start,low,?_⟩
    rw [shape,if_neg Bool.false_ne_true]
    rcases List.prefix_or_prefix_of_prefix meets (List.prefix_append start _) with short | ⟨rest,whole⟩
    · exact short
    · cases rest with
      | nil =>
        rw [List.append_nil] at whole
        rw [whole]
      | cons c rest =>
        rw [← whole,List.prefix_append_right_inj] at meets
        have padding : c ∈ List.replicate count letter := meets.subset (by simp)
        have same := List.eq_of_mem_replicate padding
        exact absurd (by rw [← whole]; simp [same]) (unused shape)

-- A finite list blocks all that a pattern does only through one of its own;
-- the names may be restricted to any that hold the padded host.
theorem one_above (qs : List (Pattern α)) (p : Pattern α) (other : letter ≠ dot)
    (unused : ∀ q ∈ qs, q.closed = false → letter ∉ q.host) (name : List α → Prop)
    (padded : ∀ count, name (p.host ++ List.replicate count letter)) :
    (∀ n, name n → p.Blocks dot n → ∃ q ∈ qs, q.Blocks dot n) ↔ ∃ q ∈ qs, q.Above dot p := by
  constructor
  · intro all
    obtain ⟨closed,host⟩ := p
    have own : name host := by simpa using padded 0
    cases closed with
    | true =>
      obtain ⟨q,member,blocked⟩ := all host own (blocks_own dot ⟨true,host⟩)
      exact ⟨q,member,blocked,fun _ => rfl⟩
    | false =>
      let count := (qs.map fun q => q.host.length).sum+1
      have low := open_blocks_append dot (blocks_own dot ⟨false,host⟩) (List.replicate count letter)
      obtain ⟨q,member,blocked⟩ := all _ (padded count) low
      have long : q.host.length < count := Nat.lt_succ_of_le (List.le_sum_of_mem (List.mem_map_of_mem member))
      obtain ⟨still,upper⟩ := blocks_padded dot q other (unused q member) long blocked
      refine ⟨q,member,upper,?_⟩
      intro closed
      exact absurd (closed.symm.trans still) Bool.noConfusion
  · rintro ⟨q,member,above⟩ n _ blocked
    exact ⟨q,member,above_blocks dot q p above blocked⟩

end Blocking
end HostPatterns
