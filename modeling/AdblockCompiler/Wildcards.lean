import AdblockCompiler.PatternFilter
import AdblockCompiler.RegExpSequences

-- The patterns of the filters as the expressions that their constructor builds.
namespace AdblockCompiler.Wildcards
open JsText Pipeline RegExpSequences

-- str.replace(/[.*+?^${}()|[\]\\]/g, '\\$&')
def escapeRegExp (str : Text) : Text := PatternFilter.escaped str

-- pattern.split(/\*+/): a run of stars ends one piece.
def pieces : Text → List Text
  | [] => [[]]
  | '*' :: '*' :: rest => pieces ('*' :: rest)
  | '*' :: rest => [] :: pieces rest
  | c :: rest =>
    match pieces rest with
    | piece :: later => (c :: piece) :: later
    | [] => [[c]]

example : pieces "**a*b".toList = ["".toList,"a".toList,"b".toList] := by decide

-- Upper cases by the default conversion of Unicode.
structure CaseMapping where
  toUppercase : Char → Text
  ascii : ∀ c, c.toNat < 128 → toUppercase c = [c.toUpper]

-- Canonicalize for the flag i without the flag u: by the upper case of a code
-- unit, where that is a single one, and never from others into ASCII.
def CaseMapping.canonicalize (cases : CaseMapping) (ch : Char) : Char :=
  match cases.toUppercase ch with
  | [cu] =>
    if 0x10000 ≤ ch.toNat ∨ 0x10000 ≤ cu.toNat then ch
    else if 128 ≤ ch.toNat ∧ cu.toNat < 128 then ch
    else cu
  | _ => ch

def CaseMapping.Alike (cases : CaseMapping) (c d : Char) : Prop := cases.canonicalize c = cases.canonicalize d

def slashed (pattern : Text) : Bool := startsWith pattern ['/'] && endsWith pattern ['/'] && 2 < pattern.length

section Constructor
variable (regExp : Text → Except Thrown (Text → Bool)) (canonicalize : Char → Char)

-- new RegExp(source, 'i'), on a source of the forms that are read here.
def newRegExp (source : Text) : Except Thrown (Text → Bool) :=
  match parse source with
  | some expression => .ok (test canonicalize expression)
  | none => .error "Invalid regular expression".toList

def newWildcard (pattern : Text) : Except Thrown Wildcard :=
  if pattern = [] then .error "Wildcard cannot be empty".toList
  else if slashed pattern then (regExp (pattern.drop 1).dropLast).map fun regex => ⟨pattern,some regex⟩
  else if '*' ∈ pattern then
    let regexStr := "[\\s\\S]*".toList.intercalate ((pieces pattern).map escapeRegExp)
    (newRegExp canonicalize (['^'] ++ regexStr ++ ['$'])).map fun regex => ⟨pattern,some regex⟩
  else .ok ⟨pattern,none⟩

end Constructor

-- The upper cases of the first 256 characters.
def latin1 : CaseMapping where
  toUppercase c :=
    if c.toNat = 0xDF then ['S','S']
    else if 0xE0 ≤ c.toNat ∧ c.toNat < 0xFF ∧ c.toNat ≠ 0xF7 then [Char.ofNat (c.toNat-0x20)]
    else if c.toNat = 0xFF then [Char.ofNat 0x178]
    else if c.toNat = 0xB5 then [Char.ofNat 0x39C]
    else [c.toUpper]
  ascii := by
    intro c ascii
    rw [if_neg (by omega),if_neg (by omega),if_neg (by omega),if_neg (by omega)]

section Pieces

theorem pieces_ne_nil (pattern : Text) : pieces pattern ≠ [] := by
  fun_induction pieces pattern with
  | case1 => simp
  | case2 rest ih => exact ih
  | case3 => simp
  | case4 => simp
  | case5 => simp

-- Only the last piece of a text that begins with no star can be empty.
theorem pieces_filled (apart : text.head? ≠ some '*') : ∀ part ∈ (pieces text).head?, part = [] → pieces text = [[]] := by
  intro part first empty
  subst empty
  cases text with
  | nil => rfl
  | cons c rest =>
    have other : c ≠ '*' := fun same => apart (congrArg some same)
    obtain ⟨piece,later,shape⟩ := List.exists_cons_of_ne_nil (pieces_ne_nil rest)
    have parts : pieces (c :: rest) = (c :: piece) :: later := by
      rw [pieces,shape]
      · exact fun _ same => absurd same other
      · exact other
    rw [parts] at first
    cases first

theorem weave_letter (c : Char) (word : Text) (words runs : List Text) :
    weave ((c :: word) :: words) runs = c :: weave (word :: words) runs := by
  cases runs <;> rfl

-- A star at the front is that of the first run.
theorem weave_star (plain : '*' ∉ part) (few : runs.length+1 = (part :: parts).length)
    (same : '*' :: rest = weave (part :: parts) runs) :
    part = [] ∧ ∃ run later, runs = run :: later ∧ '*' :: rest = run ++ weave parts later := by
  cases part with
  | cons c word =>
    rw [weave_letter] at same
    exact absurd (List.mem_cons.mpr (.inl (List.cons.inj same).1)) plain
  | nil =>
    refine ⟨rfl,?_⟩
    cases runs with
    | nil =>
      obtain rfl := List.length_eq_zero_iff.mp (Nat.succ.inj few).symm
      cases same
    | cons run later => exact ⟨run,later,rfl,same⟩

-- Pieces without stars between runs of them, the runs as long as they can be.
structure Split (pattern : Text) (parts : List Text) : Prop where
  joined : ∃ runs, runs.length+1 = parts.length ∧ pattern = weave parts runs ∧ ∀ run ∈ runs, run ≠ [] ∧ ∀ c ∈ run, c = '*'
  plain : ∀ part ∈ parts, '*' ∉ part
  inner : ∀ part ∈ parts.tail.dropLast, part ≠ []

theorem pieces_split (pattern : Text) : Split pattern (pieces pattern) := by
  fun_induction pieces pattern with
  | case1 => exact ⟨⟨[],rfl,rfl,by simp⟩,by simp,by simp⟩
  | case2 rest ih =>
    -- one more star in the run at the front
    refine ⟨?_,ih.plain,ih.inner⟩
    obtain ⟨runs,few,same,stars⟩ := ih.joined
    obtain ⟨part,parts,shape⟩ := List.exists_cons_of_ne_nil (pieces_ne_nil ('*' :: rest))
    rw [shape] at few same ⊢
    obtain ⟨rfl,run,later,rfl,front⟩ := weave_star (ih.plain part (by simp [shape])) few same
    refine ⟨('*' :: run) :: later,few,?_,?_⟩
    · rw [front]
      rfl
    · intro other member
      cases List.mem_cons.mp member with
      | inl first =>
        subst first
        refine ⟨List.cons_ne_nil _ _,?_⟩
        intro c inside
        cases List.mem_cons.mp inside with
        | inl star => exact star
        | inr more => exact (stars run (by simp)).2 c more
      | inr others => exact stars other (List.mem_cons_of_mem _ others)
  | case3 rest apart ih =>
    obtain ⟨runs,few,same,stars⟩ := ih.joined
    refine ⟨⟨['*'] :: runs,congrArg Nat.succ few,?_,?_⟩,?_,?_⟩
    · rw [weave,← same]
      rfl
    · intro run member
      cases List.mem_cons.mp member with
      | inl first => simp [first]
      | inr others => exact stars run others
    · intro part member
      cases List.mem_cons.mp member with
      | inl first => simp [first]
      | inr others => exact ih.plain part others
    · intro part member empty
      have front : rest.head? ≠ some '*' := by
        intro star
        obtain ⟨later,same⟩ := List.head?_eq_some_iff.mp star
        exact apart later same
      obtain ⟨first,more,shape⟩ := List.exists_cons_of_ne_nil (pieces_ne_nil rest)
      have inner := ih.inner
      have filled := pieces_filled front
      rw [shape] at inner filled
      rw [List.tail_cons,shape] at member
      cases more with
      | nil => cases member
      | cons next more =>
        cases List.mem_cons.mp member with
        | inl here => cases filled part (by simp [here]) empty
        | inr later => exact inner part later empty
  | case4 c rest notTwo notOne piece later shape ih =>
    rw [shape] at ih
    obtain ⟨runs,few,same,stars⟩ := ih.joined
    refine ⟨⟨runs,few,?_,stars⟩,?_,ih.inner⟩
    · rw [weave_letter,same]
    · intro part member
      cases List.mem_cons.mp member with
      | inl first =>
        subst first
        have inside := ih.plain piece (by simp)
        simp only [List.mem_cons,not_or]
        exact ⟨fun star => notOne star.symm,inside⟩
      | inr others => exact ih.plain part (List.mem_cons_of_mem _ others)
  | case5 c rest _ _ none_ => exact absurd none_ (pieces_ne_nil rest)

end Pieces

section Folding
variable (cases : CaseMapping)

theorem upper_toNat (c : Char) : c.toUpper.toNat = if 97 ≤ c.toNat ∧ c.toNat ≤ 122 then c.toNat-32 else c.toNat := by
  have val : c.toNat = c.val.toNat := rfl
  unfold Char.toUpper
  split
  · rename_i small
    have least : 97 ≤ c.val.toNat := by simpa [UInt32.le_iff_toNat_le] using small.1
    have most : c.val.toNat ≤ 122 := by simpa [UInt32.le_iff_toNat_le] using small.2
    rw [val,if_pos ⟨least,most⟩]
    show (c.val + _).toNat = _
    rw [UInt32.toNat_add]
    simp
    omega
  · rename_i large
    rw [if_neg]
    intro small
    apply large
    simpa [UInt32.le_iff_toNat_le] using small

theorem upper_ascii (c : Char) : c.toUpper.toNat < 128 ↔ c.toNat < 128 := by
  rw [upper_toNat]
  split <;> omega

theorem ascii_upper (c : Char) (ascii : c.toNat < 128) : cases.canonicalize c = c.toUpper := by
  have small := (upper_ascii c).mpr ascii
  rw [CaseMapping.canonicalize,cases.ascii c ascii]
  simp only
  rw [if_neg (by omega),if_neg (by omega)]

theorem other_upper (c : Char) (other : 128 ≤ c.toNat) : 128 ≤ (cases.canonicalize c).toNat := by
  unfold CaseMapping.canonicalize
  split
  · split
    · exact other
    · split
      · exact other
      · omega
  · exact other

-- A character of ASCII is alike only to itself and its letter's other case.
theorem alike_ascii (c d : Char) (ascii : c.toNat < 128) : cases.Alike c d ↔ c.toUpper = d.toUpper := by
  rw [CaseMapping.Alike,ascii_upper cases c ascii]
  have small := (upper_ascii c).mpr ascii
  by_cases both : d.toNat < 128
  · rw [ascii_upper cases d both]
  · have large := other_upper cases d (Nat.le_of_not_lt both)
    have kept := mt (upper_ascii d).mp both
    constructor
    · intro same
      rw [← same] at large
      omega
    · intro same
      rw [← same] at kept
      exact absurd small kept

end Folding

section Matching

theorem constructor_between (regExp : Text → Except Thrown (Text → Bool)) (canonicalize : Char → Char) {pattern : Text}
    (star : '*' ∈ pattern) (glob : slashed pattern = false) :
    newWildcard regExp canonicalize pattern =
      (newRegExp canonicalize (between (pieces pattern))).map fun regex => ⟨pattern,some regex⟩ := by
  have some_ : pattern ≠ [] := List.ne_nil_of_mem star
  have same : escapeRegExp = RegExps.escape := funext PatternFilter.escaped_escape
  rw [newWildcard,if_neg some_,glob,if_neg Bool.false_ne_true,if_pos star,same]
  rfl

theorem newWildcard_spelled (regExp : Text → Except Thrown (Text → Bool)) (canonicalize : Char → Char) {pattern : Text}
    (star : '*' ∈ pattern) (glob : slashed pattern = false) :
    ∃ wildcard, newWildcard regExp canonicalize pattern = .ok wildcard ∧
      ∀ s, wildcard.test s = true ↔ Spelled (fun c d => canonicalize c = canonicalize d) (pieces pattern) s := by
  obtain ⟨expression,read,found⟩ := between_exact canonicalize (pieces_ne_nil pattern)
  refine ⟨⟨pattern,some (test canonicalize expression)⟩,?_,found⟩
  rw [constructor_between regExp canonicalize star glob,newRegExp,read]
  rfl

-- A pattern with stars is met from end to end by its pieces in order, with
-- anything between them, where characters are compared as the flag i has it.
theorem wildcard_glob (regExp : Text → Except Thrown (Text → Bool)) (cases : CaseMapping) {pattern : Text}
    (star : '*' ∈ pattern) (glob : slashed pattern = false) :
    Split pattern (pieces pattern) ∧
      (∃ wildcard, newWildcard regExp cases.canonicalize pattern = .ok wildcard ∧
        ∀ s, wildcard.test s = true ↔ Spelled cases.Alike (pieces pattern) s) ∧
      ∀ c d, c.toNat < 128 → (cases.Alike c d ↔ c.toUpper = d.toUpper) :=
  ⟨pieces_split pattern,newWildcard_spelled regExp cases.canonicalize star glob,alike_ascii cases⟩

theorem wildcard_glob_names : Split "*.EXAMPLE.org".toList (pieces "*.EXAMPLE.org".toList) ∧
    (∃ wildcard, newWildcard (fun _ => .error []) latin1.canonicalize "*.EXAMPLE.org".toList = .ok wildcard ∧
      ∀ s, wildcard.test s = true ↔ Spelled latin1.Alike (pieces "*.EXAMPLE.org".toList) s) ∧
    ∀ c d, c.toNat < 128 → (latin1.Alike c d ↔ c.toUpper = d.toUpper) :=
  wildcard_glob (fun _ => .error []) latin1 (by decide) (by decide)

-- Letters outside ASCII are compared without regard to case as well.
theorem wildcard_other_letters :
    ¬ ∀ (pattern s : Text) (wildcard : Wildcard), '*' ∈ pattern → slashed pattern = false →
      newWildcard (fun _ => .error []) latin1.canonicalize pattern = .ok wildcard →
        (wildcard.test s = true ↔ Spelled (fun c d => c.toUpper = d.toUpper) (pieces pattern) s) := by
  intro ascii
  have found := (ascii "é*".toList "É".toList _ (by decide) (by decide) rfl).mp (by decide)
  have parts : pieces "é*".toList = [['é'],[]] := by decide
  rw [parts,spelled_cons _ (by simp)] at found
  obtain ⟨front,gap,tail,same,like,_⟩ := found
  cases like with
  | cons here _ =>
    have letter := (List.cons.inj same).1
    rw [← letter] at here
    revert here
    decide

end Matching

-- The pipeline's patterns, whose stars are read without an expression, are the
-- same.
section Agreement
open Globs
variable (fold : Char → Char)

def lettersOf (word : Text) : List (Piece Char) := word.map fun c => .letter (fold c)

theorem globPieces_pieces (s : FilterService) (pattern : Text) :
    globPieces s pattern = [.any].intercalate ((pieces pattern).map (lettersOf s.canonicalize)) := by
  fun_induction pieces pattern with
  | case1 => rfl
  | case2 rest ih =>
    rw [globPieces]
    exact ih
  | case3 rest apart ih =>
    obtain ⟨piece,later,shape⟩ := List.exists_cons_of_ne_nil (pieces_ne_nil rest)
    rw [globPieces,ih,shape]
    · simp [lettersOf]
    · exact apart
  | case4 c rest notTwo notOne piece later shape ih =>
    rw [globPieces,ih,shape]
    · cases later <;> simp [lettersOf]
    · exact notTwo
    · exact notOne
  | case5 c rest _ _ none_ => exact absurd none_ (pieces_ne_nil rest)

theorem folded_alike (word front : Text) :
    List.Forall₂ (fun c d => fold c = fold d) word front ↔ front.map fold = word.map fold := by
  have equal : List.Forall₂ Eq (word.map fold) (front.map fold) ↔ word.map fold = front.map fold := by
    rw [List.forall₂_eq_eq_eq]
  rw [List.forall₂_map_left_iff,List.forall₂_map_right_iff] at equal
  exact equal.trans eq_comm

theorem meets_spelled (some_ : words ≠ []) (text : Text) :
    meets (fun _ => false) List.isEmpty ([.any].intercalate (words.map (lettersOf fold))) (text.map fold) = true ↔
      Spelled (fun c d => fold c = fold d) words text := by
  obtain ⟨word,words,rfl⟩ := List.exists_cons_of_ne_nil some_
  clear some_
  induction words generalizing word text with
  | nil =>
    have letters := meets_letters (fun _ => false) List.isEmpty (word.map fold) [] (text.map fold)
    rw [List.append_nil,List.map_map] at letters
    rw [List.map_singleton,List.intercalate_singleton,spelled_one,folded_alike]
    refine letters.trans ?_
    constructor
    · intro given
      obtain ⟨tail,same,last⟩ := given
      rw [List.isEmpty_iff.mp last,List.append_nil] at same
      exact same
    · intro same
      exact ⟨[],same.trans (List.append_nil _).symm,rfl⟩
  | cons next words ih =>
    have pieces : [.any].intercalate ((word :: next :: words).map (lettersOf fold)) =
        (word.map fold).map .letter ++ .any :: [.any].intercalate ((next :: words).map (lettersOf fold)) := by
      simp [lettersOf]
    rw [pieces,meets_letters,spelled_cons _ (List.cons_ne_nil next words)]
    simp only [meets,List.any_eq_true,List.mem_tails,← ih]
    constructor
    · intro given
      obtain ⟨_,same,_,⟨gap,rfl⟩,found⟩ := given
      obtain ⟨front,rest,rfl,like,others⟩ := List.map_eq_append_iff.mp same
      obtain ⟨between_,tail,rfl,_,rfl⟩ := List.map_eq_append_iff.mp others
      exact ⟨front,between_,tail,rfl,(folded_alike fold word front).mpr like,found⟩
    · intro given
      obtain ⟨front,gap,tail,rfl,like,found⟩ := given
      refine ⟨(gap ++ tail).map fold,?_,tail.map fold,⟨gap.map fold,List.map_append.symm⟩,found⟩
      rw [List.map_append,(folded_alike fold word front).mp like]

theorem newWildcard_pipeline (s : FilterService) (pattern : Text) :
    newWildcard s.regExp s.canonicalize pattern = Pipeline.newWildcard s pattern := by
  by_cases star : '*' ∈ pattern
  · cases glob : slashed pattern with
    | true =>
      rw [slashed] at glob
      rw [newWildcard,Pipeline.newWildcard,slashed,glob]
      rfl
    | false =>
      obtain ⟨expression,read,found⟩ := between_exact s.canonicalize (pieces_ne_nil pattern)
      have same : test s.canonicalize expression = globTest s pattern := by
        funext text
        rw [Bool.eq_iff_iff,found,globTest,globPieces_pieces,meets_spelled s.canonicalize (pieces_ne_nil pattern)]
      have some_ : pattern ≠ [] := List.ne_nil_of_mem star
      rw [constructor_between s.regExp s.canonicalize star glob,newRegExp,read,Pipeline.newWildcard,if_neg some_]
      rw [slashed] at glob
      rw [glob,if_neg Bool.false_ne_true,if_pos star,← same]
      rfl
  · rw [newWildcard,Pipeline.newWildcard,if_neg star,if_neg star]
    rfl

end Agreement
end AdblockCompiler.Wildcards
