import AdblockCompiler.RegExps

-- Regular expressions that are one sequence of letters, of the class [\s\S] and
-- of anchors, with stars: their source text and what they find under a folding
-- of letters.
namespace RegExpSequences
open JsText RegExps

inductive Atom where
  | char (c : Char)
  | any
  deriving DecidableEq, Repr

inductive Token where
  | start | stop | star
  | atom (a : Atom)
  deriving DecidableEq, Repr

inductive Term where
  | start | stop
  | one (a : Atom)
  | many (a : Atom)
  deriving DecidableEq, Repr

section Reading

-- none where the source is no expression of these forms.
def tokens : Text → Option (List Token)
  | [] => some []
  | '^' :: rest => (tokens rest).map (.start :: ·)
  | '$' :: rest => (tokens rest).map (.stop :: ·)
  | '*' :: rest => (tokens rest).map (.star :: ·)
  | '[' :: '\\' :: 's' :: '\\' :: 'S' :: ']' :: rest => (tokens rest).map (.atom .any :: ·)
  | '\\' :: c :: rest => if isSyntax c || c == '/' then (tokens rest).map (.atom (.char c) :: ·) else none
  | c :: rest => if isSyntax c then none else (tokens rest).map (.atom (.char c) :: ·)

-- A star repeats the atom before it, and needs one.
def terms : List Token → Option (List Term)
  | [] => some []
  | .start :: rest => (terms rest).map (.start :: ·)
  | .stop :: rest => (terms rest).map (.stop :: ·)
  | .atom a :: .star :: rest => (terms rest).map (.many a :: ·)
  | .atom a :: rest => (terms rest).map (.one a :: ·)
  | .star :: _ => none

def parse (source : Text) : Option (List Term) := (tokens source).bind terms

theorem tokens_letter (plain : isSyntax c = false) (rest : Text) :
    tokens (c :: rest) = (tokens rest).map (.atom (.char c) :: ·) := by
  have differs (d : Char) (meaning : isSyntax d = true) : c ≠ d := by
    intro same
    rw [same,meaning] at plain
    cases plain
  rw [tokens,plain]
  · rfl
  · exact differs '^' (by decide)
  · exact differs '$' (by decide)
  · exact differs '*' (by decide)
  · exact fun _ same => absurd same (differs '[' (by decide))
  · exact fun _ _ same => absurd same (differs '\\' (by decide))

theorem tokens_meaning (meaning : isSyntax c = true) (rest : Text) :
    tokens ('\\' :: c :: rest) = (tokens rest).map (.atom (.char c) :: ·) := by
  rw [tokens,meaning]
  rfl

theorem nil_read {α : Type} (read : Option (List α)) : read.map ([] ++ ·) = read := by simp

def letters (word : Text) : List Token := word.map fun c => .atom (.char c)

theorem tokens_escaped (word rest : Text) : tokens (escape word ++ rest) = (tokens rest).map (letters word ++ ·) := by
  induction word with
  | nil => exact (nil_read _).symm
  | cons c word ih =>
    have more : escape (c :: word) ++ rest = (if isSyntax c then ['\\',c] else [c]) ++ (escape word ++ rest) := by
      rw [escape,List.flatMap_cons,List.append_assoc,← escape]
    have one : tokens (escape (c :: word) ++ rest) = (tokens (escape word ++ rest)).map (.atom (.char c) :: ·) := by
      rw [more]
      cases meaning : isSyntax c with
      | true => exact tokens_meaning meaning _
      | false => exact tokens_letter meaning _
    rw [one,ih,Option.map_map]
    rfl

-- What stands for a run of any letters.
def anything : Text := "[\\s\\S]*".toList

theorem tokens_anything (rest : Text) : tokens (anything ++ rest) = (tokens rest).map ([.atom .any,.star] ++ ·) := by
  have read : tokens (anything ++ rest) = ((tokens rest).map (.star :: ·)).map (.atom .any :: ·) := rfl
  rw [read,Option.map_map]
  rfl

def literals (word : Text) : List Term := word.map fun c => .one (.char c)

theorem terms_letters (word : Text) (rest : List Token) (apart : rest.head? ≠ some .star) :
    terms (letters word ++ rest) = (terms rest).map (literals word ++ ·) := by
  induction word with
  | nil => exact (nil_read _).symm
  | cons c word ih =>
    have one : terms (letters (c :: word) ++ rest) = (terms (letters word ++ rest)).map (.one (.char c) :: ·) := by
      rw [letters,List.map_cons,List.cons_append,terms]
      · rfl
      · intro later star
        cases word with
        | nil =>
          rw [List.map_nil,List.nil_append] at star
          rw [star] at apart
          exact apart rfl
        | cons d word => cases star
    rw [one,ih,Option.map_map]
    rfl

-- Words from end to end with anything between them.
def between (words : List Text) : Text := '^' :: (anything.intercalate (words.map escape) ++ ['$'])

def betweenTerms (words : List Text) : List Term := [.many .any].intercalate (words.map literals) ++ [.stop]

theorem betweenTerms_one (word : Text) : betweenTerms [word] = literals word ++ [.stop] := by simp [betweenTerms]

theorem betweenTerms_cons (word next : Text) (words : List Text) :
    betweenTerms (word :: next :: words) = literals word ++ .many .any :: betweenTerms (next :: words) := by simp [betweenTerms]

theorem parse_words (word : Text) (words : List Text) :
    ((tokens (anything.intercalate ((word :: words).map escape) ++ ['$'])).bind terms) = some (betweenTerms (word :: words)) := by
  induction words generalizing word with
  | nil =>
    rw [List.map_singleton,List.intercalate_singleton,tokens_escaped]
    have last : tokens ['$'] = some [.stop] := rfl
    rw [last,Option.map_some,Option.bind_some,terms_letters _ _ (by decide)]
    rw [betweenTerms_one]
    rfl
  | cons next words ih =>
    obtain ⟨read,more,parsed⟩ := Option.bind_eq_some_iff.mp (ih next)
    have source : anything.intercalate ((word :: next :: words).map escape) ++ ['$'] =
        escape word ++ (anything ++ (anything.intercalate ((next :: words).map escape) ++ ['$'])) := by
      simp only [List.map_cons,List.intercalate_cons_cons,List.append_assoc]
    have starred : terms (.atom .any :: .star :: read) = some (.many .any :: betweenTerms (next :: words)) := by
      rw [terms,parsed]
      rfl
    have first : terms (letters word ++ .atom .any :: .star :: read) =
        some (literals word ++ .many .any :: betweenTerms (next :: words)) := by
      rw [terms_letters _ _ (by simp),starred]
      rfl
    rw [source,tokens_escaped,tokens_anything,more,betweenTerms_cons]
    exact first

theorem parse_between (some_ : words ≠ []) : parse (between words) = some (.start :: betweenTerms words) := by
  obtain ⟨word,words,rfl⟩ := List.exists_cons_of_ne_nil some_
  obtain ⟨read,more,parsed⟩ := Option.bind_eq_some_iff.mp (parse_words word words)
  have front : tokens (between (word :: words)) = some (.start :: read) := by
    rw [between,tokens,more]
    rfl
  rw [parse,front,Option.bind_some,terms,parsed]
  rfl

end Reading

section Finding
variable (fold : Char → Char)

def Atom.accepts : Atom → Char → Bool
  | .char d,c => fold d == fold c
  | .any,c => isSpace c || !isSpace c

-- first is whether the text is whole, with nothing before it.
def repeated (accepts : Char → Bool) (next : Bool → Text → Bool) (first : Bool) : Text → Bool
  | [] => next first []
  | c :: text => (accepts c && repeated accepts next false text) || next first (c :: text)

def run : List Term → Bool → Text → Bool
  | [],_,_ => true
  | .start :: rest,first,text => first && run rest first text
  | .stop :: rest,first,text => text.isEmpty && run rest first text
  | .one _ :: _,_,[] => false
  | .one a :: rest,_,c :: text => a.accepts fold c && run rest false text
  | .many a :: rest,first,text => repeated (a.accepts fold) (run rest) first text

-- A match may begin anywhere.
def test (expression : List Term) (text : Text) : Bool :=
  run fold expression true text || text.tails.tail.any (run fold expression false)

end Finding

section Words
variable {α : Type} (alike : α → α → Prop)

-- Words and gaps by turns.
def weave : List (List α) → List (List α) → List α
  | word :: words,gap :: gaps => word ++ gap ++ weave words gaps
  | words,_ => words.flatten

-- Texts that are like the words, from end to end, with anything between them.
def Spelled (words : List (List α)) (text : List α) : Prop :=
  ∃ found gaps, List.Forall₂ (List.Forall₂ alike) words found ∧ gaps.length+1 = words.length ∧ text = weave found gaps

theorem spelled_one : Spelled alike [word] text ↔ List.Forall₂ alike word text := by
  constructor
  · intro given
    obtain ⟨found,gaps,same,few,rfl⟩ := given
    obtain ⟨one,rest,like,none_,rfl⟩ := List.forall₂_cons_left_iff.mp same
    rw [List.forall₂_nil_left_iff.mp none_,List.length_eq_zero_iff.mp (Nat.succ.inj few)]
    simpa [weave] using like
  · intro like
    exact ⟨[text],[],.cons like .nil,rfl,by simp [weave]⟩

theorem spelled_cons (more : words ≠ []) :
    Spelled alike (word :: words) text ↔
      ∃ front gap tail, text = front ++ (gap ++ tail) ∧ List.Forall₂ alike word front ∧ Spelled alike words tail := by
  constructor
  · intro given
    obtain ⟨found,gaps,same,few,rfl⟩ := given
    obtain ⟨front,rest,like,others,rfl⟩ := List.forall₂_cons_left_iff.mp same
    cases gaps with
    | nil => exact absurd (List.length_eq_zero_iff.mp (Nat.succ.inj few).symm) more
    | cons gap gaps =>
      refine ⟨front,gap,weave rest gaps,?_,like,rest,gaps,others,Nat.succ.inj few,rfl⟩
      rw [weave,List.append_assoc]
  · intro given
    obtain ⟨front,gap,tail,rfl,like,rest,gaps,others,few,rfl⟩ := given
    refine ⟨front :: rest,gap :: gaps,.cons like others,congrArg Nat.succ few,?_⟩
    rw [weave,List.append_assoc]

end Words

section Meaning
variable (fold : Char → Char)

theorem repeated_free {next : Bool → Text → Bool} (free : ∀ text, next true text = next false text) (accepts : Char → Bool) (text : Text) :
    repeated accepts next true text = repeated accepts next false text := by
  cases text with
  | nil => exact free []
  | cons c text => rw [repeated,repeated,free]

-- Only an anchor at the start asks what is before the text.
theorem run_free (free : .start ∉ expression) (text : Text) : run fold expression true text = run fold expression false text := by
  induction expression generalizing text with
  | nil => rfl
  | cons term rest ih =>
    have later := ih fun there => free (List.mem_cons_of_mem _ there)
    cases term with
    | start => exact absurd (List.mem_cons_self ..) free
    | stop => rw [run,run,later]
    | one a => cases text <;> rfl
    | many a => exact repeated_free later _ text

theorem literals_run (word : Text) (rest : List Term) (text : Text) :
    run fold (literals word ++ rest) false text = true ↔
      ∃ front tail, text = front ++ tail ∧ List.Forall₂ (fun c d => fold c = fold d) word front ∧ run fold rest false tail = true := by
  induction word generalizing text with
  | nil =>
    simp only [literals,List.map_nil,List.nil_append,List.forall₂_nil_left_iff]
    constructor
    · intro found
      exact ⟨[],text,rfl,rfl,found⟩
    · intro given
      obtain ⟨front,tail,rfl,rfl,found⟩ := given
      exact found
  | cons c word ih =>
    have shape : literals (c :: word) ++ rest = .one (.char c) :: (literals word ++ rest) := rfl
    rw [shape]
    cases text with
    | nil =>
      rw [run]
      constructor
      · intro never
        cases never
      · intro given
        obtain ⟨front,tail,same,like,_⟩ := given
        rw [(List.append_eq_nil_iff.mp same.symm).1] at like
        cases like
    | cons d text =>
      rw [run,Bool.and_eq_true,Atom.accepts,beq_iff_eq,ih]
      constructor
      · intro given
        obtain ⟨here,front,tail,rfl,like,found⟩ := given
        exact ⟨d :: front,tail,rfl,.cons here like,found⟩
      · intro given
        obtain ⟨front,tail,same,like,found⟩ := given
        cases like with
        | cons here like =>
          obtain ⟨rfl,rfl⟩ := List.cons.inj same
          exact ⟨here,_,tail,rfl,like,found⟩

theorem repeated_any (next : Bool → Text → Bool) (text : Text) :
    repeated (Atom.any.accepts fold) next false text = true ↔ ∃ gap tail, text = gap ++ tail ∧ next false tail = true := by
  induction text with
  | nil =>
    rw [repeated]
    constructor
    · intro found
      exact ⟨[],[],rfl,found⟩
    · intro given
      obtain ⟨gap,tail,same,found⟩ := given
      rw [(List.append_eq_nil_iff.mp same.symm).2] at found
      exact found
  | cons c text ih =>
    have every : Atom.any.accepts fold c = true := by
      rw [Atom.accepts]
      exact Bool.or_not_self _
    rw [repeated,every,Bool.true_and,Bool.or_eq_true,ih]
    constructor
    · intro given
      cases given with
      | inl later =>
        obtain ⟨gap,tail,rfl,found⟩ := later
        exact ⟨c :: gap,tail,rfl,found⟩
      | inr here => exact ⟨[],c :: text,rfl,here⟩
    · intro given
      obtain ⟨gap,tail,same,found⟩ := given
      cases gap with
      | nil =>
        obtain rfl : c :: text = tail := same
        exact .inr found
      | cons d gap =>
        obtain ⟨rfl,rfl⟩ := List.cons.inj same
        exact .inl ⟨gap,tail,rfl,found⟩

theorem stop_run (text : Text) : run fold [.stop] false text = true ↔ text = [] := by
  rw [run,run,Bool.and_true,List.isEmpty_iff]

-- By induction on the words: the letters of one, then a gap before the others.
theorem betweenTerms_run (some_ : words ≠ []) (text : Text) :
    run fold (betweenTerms words) false text = true ↔ Spelled (fun c d => fold c = fold d) words text := by
  obtain ⟨word,words,rfl⟩ := List.exists_cons_of_ne_nil some_
  clear some_
  induction words generalizing word text with
  | nil =>
    rw [betweenTerms_one,literals_run,spelled_one]
    simp only [stop_run]
    constructor
    · intro given
      obtain ⟨front,tail,rfl,like,rfl⟩ := given
      rw [List.append_nil]
      exact like
    · intro like
      exact ⟨text,[],(List.append_nil text).symm,like,rfl⟩
  | cons next words ih =>
    rw [betweenTerms_cons,literals_run,spelled_cons _ (List.cons_ne_nil next words)]
    simp only [run,repeated_any,ih]
    constructor
    · intro given
      obtain ⟨front,_,rfl,like,gap,tail,rfl,more⟩ := given
      exact ⟨front,gap,tail,rfl,like,more⟩
    · intro given
      obtain ⟨front,gap,tail,rfl,like,more⟩ := given
      exact ⟨front,gap ++ tail,rfl,like,gap,tail,rfl,more⟩

theorem betweenTerms_free (words : List Text) : .start ∉ betweenTerms words := by
  induction words with
  | nil => simp [betweenTerms]
  | cons word words ih =>
    cases words with
    | nil => simp [betweenTerms_one,literals]
    | cons next words => simp [betweenTerms_cons,literals,ih]

theorem between_exact (some_ : words ≠ []) :
    ∃ expression, parse (between words) = some expression ∧
      ∀ text, test fold expression text = true ↔ Spelled (fun c d => fold c = fold d) words text := by
  refine ⟨_,parse_between some_,?_⟩
  intro text
  rw [← betweenTerms_run fold some_,test]
  have inside : text.tails.tail.any (run fold (.start :: betweenTerms words) false) = false := by
    simp [run]
  rw [inside,Bool.or_false,run,Bool.true_and,run_free fold (betweenTerms_free words)]

end Meaning

example : (parse "^a\\.[\\s\\S]*$".toList).map (fun e => test Char.toLower e "A.\n".toList) = some true := by decide

end RegExpSequences
