import AdblockCompiler.HostPatterns

namespace Globs
open HostPatterns

-- A letter, any run of letters, or a place where a separator stands or the
-- text ends.
inductive Piece (α : Type) where
  | letter (c : α)
  | any
  | edge
  deriving DecidableEq

section Matching
variable {α : Type} [DecidableEq α] (separator : α → Bool) (rest : List α → Bool)

-- Whether a front of the text matches, with what must hold of what follows.
def meets : List (Piece α) → List α → Bool
  | [],text => rest text
  | .any :: pieces,text => text.tails.any (meets pieces)
  | .edge :: pieces,[] => meets pieces []
  | .edge :: pieces,c :: text => separator c && meets pieces text
  | .letter _ :: _,[] => false
  | .letter d :: pieces,c :: text => c == d && meets pieces text

theorem meets_letters (word : List α) (pieces : List (Piece α)) (text : List α) :
    meets separator rest (word.map .letter ++ pieces) text = true ↔
      ∃ tail, text = word ++ tail ∧ meets separator rest pieces tail = true := by
  induction word generalizing text with
  | nil => simp
  | cons d word ih =>
    cases text with
    | nil => simp [meets]
    | cons c text =>
      rw [List.map_cons,List.cons_append,meets,Bool.and_eq_true,beq_iff_eq,ih text]
      constructor
      · intro given
        obtain ⟨rfl,tail,rfl,more⟩ := given
        exact ⟨tail,rfl,more⟩
      · intro given
        obtain ⟨tail,same,more⟩ := given
        obtain ⟨rfl,rfl⟩ := List.cons.inj same
        exact ⟨rfl,tail,rfl,more⟩

end Matching

section Separators
variable {α : Type} (dot stop : α) (separator : α → Bool)

def Plain (name : List α) : Prop := ∀ c ∈ name, separator c = false

theorem plain_within (plain : Plain separator name) (inside : Within dot part name) : Plain separator part := by
  rcases inside with rfl | ⟨front,rfl⟩
  · exact plain
  · exact fun c member => plain c (by simp [member])

-- The separator after a name is the first one from any of its letters on.
theorem before_stop (plain : Plain separator part) (last : separator d = true)
    (same : part ++ [stop] = word ++ d :: tail) : part = word ∧ d = stop := by
  rcases List.append_eq_append_iff.mp same with ⟨more,longer,short⟩ | ⟨more,shorter,long⟩
  · cases more with
    | nil =>
      rw [List.append_nil] at longer
      rw [List.nil_append] at short
      exact ⟨longer.symm,(List.cons.inj short).1.symm⟩
    | cons c more =>
      have few := congrArg List.length short
      simp at few
  · cases more with
    | nil =>
      rw [List.append_nil] at shorter
      rw [List.nil_append] at long
      exact ⟨shorter,(List.cons.inj long).1⟩
    | cons c more =>
      obtain ⟨rfl,-⟩ := List.cons.inj long
      have no := plain d (by rw [shorter]; simp)
      rw [last] at no
      cases no

end Separators

-- Patterns tried from the start of each part of a name that is followed by a
-- separator, as a host is in an address.
section Anchored
variable {α : Type} [DecidableEq α] (dot stop : α) (separator : α → Bool)

def Reaches (pieces : List (Piece α)) (name : List α) : Prop :=
  ∃ part, Within dot part name ∧ meets separator (fun _ => true) pieces (part ++ [stop]) = true

variable (stops : separator stop = true)
include stops

theorem reaches_closed (host : Plain separator word) (plain : Plain separator name) :
    Reaches dot stop separator (word.map .letter ++ [.edge]) name ↔ Pattern.Blocks dot ⟨true,word⟩ name := by
  rw [closed_blocks]
  constructor
  · intro given
    obtain ⟨part,inside,found⟩ := given
    obtain ⟨tail,same,edge⟩ := (meets_letters separator _ word _ _).mp found
    cases tail with
    | nil =>
      have inWord : stop ∈ word := by
        rw [List.append_nil] at same
        rw [← same]
        simp
      rw [host stop inWord] at stops
      cases stops
    | cons d tail =>
      have last : separator d = true := (Bool.and_eq_true_iff.mp edge).1
      obtain ⟨rfl,-⟩ := before_stop stop separator (plain_within dot separator plain inside) last same
      exact inside
  · intro inside
    refine ⟨word,inside,(meets_letters separator _ word _ _).mpr ⟨[stop],rfl,?_⟩⟩
    simp [meets,stops]

theorem reaches_stop (host : Plain separator word) (plain : Plain separator name) :
    Reaches dot stop separator (word.map .letter ++ [.letter stop]) name ↔ Pattern.Blocks dot ⟨true,word⟩ name := by
  rw [closed_blocks]
  constructor
  · intro given
    obtain ⟨part,inside,found⟩ := given
    obtain ⟨tail,same,letter⟩ := (meets_letters separator _ word _ _).mp found
    cases tail with
    | nil => cases letter
    | cons d tail =>
      have here : d = stop := beq_iff_eq.mp (Bool.and_eq_true_iff.mp letter).1
      obtain ⟨rfl,-⟩ :=
        before_stop stop separator (plain_within dot separator plain inside) (here.symm ▸ stops) same
      exact inside
  · intro inside
    refine ⟨word,inside,(meets_letters separator _ word _ _).mpr ⟨[stop],rfl,?_⟩⟩
    simp [meets]

theorem reaches_open (host : Plain separator word) :
    Reaches dot stop separator (word.map .letter) name ↔ Pattern.Blocks dot ⟨false,word⟩ name := by
  simp only [Reaches,Pattern.Blocks,Bool.false_eq_true,if_false]
  have first (part : List α) : meets separator (fun _ => true) (word.map .letter) (part ++ [stop]) = true ↔ word <+: part := by
    have scan := meets_letters separator (fun _ => true) word [] (part ++ [stop])
    rw [List.append_nil] at scan
    rw [scan]
    constructor
    · intro given
      obtain ⟨tail,same,-⟩ := given
      have front : word <+: part ++ [stop] := ⟨tail,same.symm⟩
      rcases List.prefix_concat_iff.mp front with whole | inside
      · have inWord : stop ∈ word := by rw [whole]; simp
        rw [host stop inWord] at stops
        cases stops
      · exact inside
    · intro given
      obtain ⟨tail,rfl⟩ := given
      exact ⟨tail ++ [stop],by simp,rfl⟩
  simp only [first]

end Anchored
end Globs
