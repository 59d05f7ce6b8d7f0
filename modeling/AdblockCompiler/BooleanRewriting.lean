import AdblockCompiler.BooleanSyntax

namespace BooleanSyntax
open JsText

-- Words that the lexer of such expressions can read back.
def Spelled (lexemes : List Lexeme) : Prop :=
  ∀ letters, .word letters ∈ lexemes → letters.all isWordChar = true ∧ letters.head?.any isWordStart = true

theorem spelled_tail (spelled : Spelled (first :: rest)) : Spelled rest :=
  fun letters member => spelled letters (by simp [member])

theorem spelled_head (spelled : Spelled (.word letters :: rest)) :
    letters.all isWordChar = true ∧ letters.head?.any isWordStart = true :=
  spelled letters (by simp)

theorem written_blank (written : Written lexemes text) : Written lexemes (' ' :: text) := by
  cases written with
  | done gap => exact .done (gap+1)
  | symbol gap notWord after => exact .symbol (gap+1) notWord after
  | word gap after apart => exact .word (gap+1) after apart

theorem symbol_chars {first : Lexeme} (notWord : ∀ text, first ≠ .word text) :
    ∀ c ∈ first.text, isWordChar c = false ∧ isSpace c = false := by
  cases first with
  | word text => exact absurd rfl (notWord text)
  | bang | conj | disj | opening | closing => exact every_char (by decide)

theorem symbol_some {first : Lexeme} (notWord : ∀ text, first ≠ .word text) : first.text ≠ [] := by
  cases first with
  | word text => exact absurd rfl (notWord text)
  | bang | conj | disj | opening | closing => decide

section Renaming

def renameWord (word value letters : Text) : Text := if lowerCase letters = word then value else letters

def renameLexeme (rename : Text → Text) : Lexeme → Lexeme
  | .word letters => .word (rename letters)
  | other => other

variable {word value : Text}

theorem toLower_other (other : isWordChar c = false) : c.toLower = c := by
  have notUpper : c.isUpper = false := by
    simp only [isWordChar,Char.isAlphanum,Char.isAlpha,Bool.or_eq_false_iff] at other
    exact other.1.1.1
  simp only [Char.isUpper,ge_iff_le,decide_eq_false_iff_not] at notUpper
  rw [Char.toLower,dif_neg]
  exact notUpper

theorem startsWith_other (some : word.head?.any isWordChar = true) (other : isWordChar c = false) (rest : Text) :
    startsWith (lowerCase (c :: rest)) word = false := by
  cases word with
  | nil => simp at some
  | cons d more =>
    have differs : d ≠ c := by
      rintro rfl
      simp [other] at some
    simp [startsWith,lowerCase,List.isPrefixOf,toLower_other other,differs]

-- Outside words nothing matches: a character that is no word character is
-- copied, and it opens a boundary for the next one.
theorem replace_other (some : word.head?.any isWordChar = true) (other : isWordChar c = false)
    (prev : Option Char) (rest : Text) :
    replaceFrom (wholeWord word) value 0 prev (c :: rest) = c :: replaceFrom (wholeWord word) value 0 (Option.some c) rest := by
  have none : wholeWord word prev (c :: rest) = none := by
    simp [wholeWord,startsWith_other some other]
  rw [replaceFrom,none]

theorem replace_apart (some : word.head?.any isWordChar = true) (apart : rest.head?.any isWordChar = false)
    (prev : Option Char) : replaceFrom (wholeWord word) value 0 prev rest = replaceAll (wholeWord word) value rest := by
  cases rest with
  | nil => rfl
  | cons c rest =>
    have other : isWordChar c = false := by simpa using apart
    rw [replaceAll,replace_other some other,replace_other some other]

-- No match starts inside a word.
theorem replace_inside (some : word.head?.any isWordChar = true) (apart : rest.head?.any isWordChar = false)
    (inside : isWordChar p = true) (all : letters.all isWordChar = true) :
    replaceFrom (wholeWord word) value 0 (Option.some p) (letters ++ rest) =
      letters ++ replaceAll (wholeWord word) value rest := by
  induction letters generalizing p with
  | nil => exact replace_apart some apart _
  | cons c letters ih =>
    obtain ⟨letter,more⟩ : isWordChar c = true ∧ letters.all isWordChar = true := by simpa using all
    have none : wholeWord word (Option.some p) (c :: (letters ++ rest)) = none := by simp [wholeWord,inside]
    rw [List.cons_append,replaceFrom,none]
    exact congrArg (c :: ·) (ih letter (by simpa using more))

theorem replace_skip (some : word.head?.any isWordChar = true) (apart : rest.head?.any isWordChar = false)
    (prev : Option Char) (letters : Text) :
    replaceFrom (wholeWord word) value letters.length prev (letters ++ rest) = replaceAll (wholeWord word) value rest := by
  induction letters generalizing prev with
  | nil => exact replace_apart some apart _
  | cons c letters ih => exact ih _

theorem whole_iff (apart : rest.head?.any isWordChar = false) (all : letters.all isWordChar = true)
    (plain : word.all isWordChar = true) :
    (startsWith (lowerCase (letters ++ rest)) word && !(((letters ++ rest).drop word.length).head?.any isWordChar)) =
      (lowerCase letters == word) := by
  induction letters generalizing word with
  | nil =>
    cases word with
    | nil => simp [startsWith,lowerCase,apart]
    | cons d more =>
      cases rest with
      | nil => simp [startsWith,lowerCase]
      | cons c rest =>
        have other : isWordChar c = false := by simpa using apart
        have differs : d ≠ c := by
          rintro rfl
          simp [other] at plain
        simp [startsWith,lowerCase,toLower_other other,differs]
  | cons c letters ih =>
    obtain ⟨letter,left⟩ : isWordChar c = true ∧ letters.all isWordChar = true := by simpa using all
    cases word with
    | nil => simp [startsWith,lowerCase,letter]
    | cons d more =>
      have plain_more : more.all isWordChar = true := by simp at plain; simpa using plain.2
      have tail := ih left plain_more
      have cut : startsWith (lowerCase (c :: letters ++ rest)) (d :: more) =
          (d == c.toLower && startsWith (lowerCase (letters ++ rest)) more) := by
        simp [startsWith,lowerCase,List.isPrefixOf]
      rw [cut,Bool.and_assoc]
      simp only [List.cons_append,List.length_cons,List.drop_succ_cons]
      rw [tail]
      rw [show (d == c.toLower) = (c.toLower == d) from BEq.comm]
      rfl

theorem wholeWord_word (free : prev.any isWordChar = false) (apart : rest.head?.any isWordChar = false)
    (all : letters.all isWordChar = true) (plain : word.all isWordChar = true) :
    wholeWord word prev (letters ++ rest) = if lowerCase letters = word then Option.some letters.length else none := by
  have whole := whole_iff apart all plain
  rw [wholeWord,free,Bool.not_false,Bool.true_and,whole]
  by_cases same : lowerCase letters = word
  · have length : word.length = letters.length := by rw [← same]; simp [lowerCase]
    simp [same,length]
  · simp [same]

-- A word is renamed as a whole or left as it is.
theorem replace_word (some : word.head?.any isWordChar = true) (plain : word.all isWordChar = true)
    (free : prev.any isWordChar = false) (apart : rest.head?.any isWordChar = false)
    (letters_some : letters ≠ []) (all : letters.all isWordChar = true) :
    replaceFrom (wholeWord word) value 0 prev (letters ++ rest) =
      renameWord word value letters ++ replaceAll (wholeWord word) value rest := by
  have found := wholeWord_word free apart all plain
  cases letters with
  | nil => exact absurd rfl letters_some
  | cons c letters =>
    obtain ⟨letter,more⟩ : isWordChar c = true ∧ letters.all isWordChar = true := by simpa using all
    rw [List.cons_append] at found ⊢
    rw [replaceFrom,found]
    by_cases same : lowerCase (c :: letters) = word
    · rw [if_pos same,renameWord,if_pos same]
      exact congrArg (value ++ ·) (replace_skip some apart _ letters)
    · rw [if_neg same,renameWord,if_neg same]
      exact congrArg (c :: ·) (replace_inside some apart letter (by simpa using more))

theorem replace_free (free : prev.any isWordChar = false) (rest : Text) :
    replaceFrom (wholeWord word) value 0 prev rest = replaceAll (wholeWord word) value rest := by
  cases rest with
  | nil => rfl
  | cons c rest =>
    have same : wholeWord word prev (c :: rest) = wholeWord word none (c :: rest) := by simp [wholeWord,free]
    rw [replaceAll,replaceFrom,replaceFrom,same]

theorem replaceAll_others (some : word.head?.any isWordChar = true) (others : ∀ c ∈ front, isWordChar c = false)
    (rest : Text) : replaceAll (wholeWord word) value (front ++ rest) = front ++ replaceAll (wholeWord word) value rest := by
  induction front with
  | nil => rfl
  | cons c front ih =>
    have other := others c (by simp)
    rw [List.cons_append,replaceAll,replace_other some other,replace_free (by simpa using other),
      ih fun d member => others d (by simp [member])]
    rfl

theorem replaceAll_apart (some : word.head?.any isWordChar = true) (apart : rest.head?.any isWordChar = false) :
    (replaceAll (wholeWord word) value rest).head?.any isWordChar = false := by
  cases rest with
  | nil => exact apart
  | cons c rest =>
    have other : isWordChar c = false := by simpa using apart
    rw [replaceAll,replace_other some other]
    exact apart

theorem blanks_other (gap : Nat) : ∀ c ∈ List.replicate gap ' ', isWordChar c = false := by
  intro c member
  rw [List.eq_of_mem_replicate member]
  decide

theorem spelled_some (spelled : Spelled (.word letters :: rest)) : letters ≠ [] := by
  obtain ⟨-,starts⟩ := spelled_head spelled
  cases letters with
  | nil => simp at starts
  | cons => simp

-- Replacing a whole word everywhere renames that word among the lexemes and
-- leaves a text written from what comes out.
theorem written_rename (some : word.head?.any isWordChar = true) (plain : word.all isWordChar = true)
    (written : Written lexemes text) (spelled : Spelled lexemes) :
    Written (lexemes.map (renameLexeme (renameWord word value))) (replaceAll (wholeWord word) value text) := by
  induction written with
  | done gap =>
    have copied : replaceAll (wholeWord word) value (List.replicate gap ' ' ++ []) =
        List.replicate gap ' ' ++ replaceAll (wholeWord word) value [] := replaceAll_others some (blanks_other gap) []
    rw [List.append_nil] at copied
    rw [copied]
    simpa [replaceAll,replaceFrom] using Written.done gap
  | @symbol first rest text gap notWord after ih =>
    have kept : renameLexeme (renameWord word value) first = first := by
      cases first with
      | word letters => exact absurd rfl (notWord letters)
      | bang | conj | disj | opening | closing => rfl
    rw [List.append_assoc,replaceAll_others some (blanks_other gap),
      replaceAll_others some fun c member => (symbol_chars notWord c member).1,List.map_cons,kept,← List.append_assoc]
    exact .symbol gap notWord (ih (spelled_tail spelled))
  | @word rest text letters gap after apart ih =>
    have renamed : replaceFrom (wholeWord word) value 0 none (letters ++ text) =
        renameWord word value letters ++ replaceAll (wholeWord word) value text :=
      replace_word some plain rfl apart (spelled_some spelled) (spelled_head spelled).1
    rw [List.append_assoc,replaceAll_others some (blanks_other gap)]
    rw [replaceAll,renamed,← List.append_assoc]
    exact .word gap (ih (spelled_tail spelled)) (replaceAll_apart some apart)

theorem spelled_rename (spelled : Spelled lexemes) (value_all : value.all isWordChar = true)
    (value_start : value.head?.any isWordStart = true) :
    Spelled (lexemes.map (renameLexeme (renameWord word value))) := by
  intro letters member
  obtain ⟨lexeme,found,same⟩ := List.mem_map.mp member
  cases lexeme with
  | word before =>
    obtain rfl : renameWord word value before = letters := Lexeme.word.inj same
    unfold renameWord
    split
    · exact ⟨value_all,value_start⟩
    · exact spelled before found
  | bang | conj | disj | opening | closing => cases same

end Renaming

section Residue

variable {first second : Text}

def residue (first second letters : Text) : Text := replaceAll (eitherWord first second) [] letters

theorem startsWith_apart (plain : word.all isWordChar = true) (apart : rest.head?.any isWordChar = false) :
    startsWith (lowerCase (letters ++ rest)) word = startsWith (lowerCase letters) word := by
  induction letters generalizing word with
  | nil =>
    cases word with
    | nil => simp [startsWith]
    | cons d more =>
      cases rest with
      | nil => rfl
      | cons c rest =>
        have other : isWordChar c = false := by simpa using apart
        have differs : d ≠ c := by
          rintro rfl
          simp [other] at plain
        simp [startsWith,lowerCase,List.isPrefixOf,toLower_other other,differs]
  | cons c letters ih =>
    cases word with
    | nil => simp [startsWith]
    | cons d more =>
      have plain_more : more.all isWordChar = true := by simp at plain; simpa using plain.2
      have tail := ih plain_more
      simp only [startsWith,lowerCase] at tail
      simp [startsWith,lowerCase,List.isPrefixOf,← tail]

theorem startsWith_length (starts : startsWith text first = true) : first.length ≤ text.length := by
  obtain ⟨rest,rfl⟩ := startsWith_iff.mp starts
  simp

-- Matches lie inside the words, so the residue of a text is the residue of its
-- words among the symbols and blanks.
theorem either_apart (one : first.all isWordChar = true) (two : second.all isWordChar = true)
    (apart : rest.head?.any isWordChar = false) (prev other : Option Char) :
    eitherWord first second prev (letters ++ rest) = eitherWord first second other letters := by
  simp only [eitherWord,startsWith_apart one apart,startsWith_apart two apart]

theorem either_length (found : eitherWord first second prev text = some length) : length ≤ text.length := by
  have lower : (lowerCase text).length = text.length := by simp [lowerCase]
  simp only [eitherWord] at found
  split at found
  · rename_i starts
    obtain rfl := Option.some.inj found
    exact lower ▸ startsWith_length starts
  · split at found
    · rename_i starts
      obtain rfl := Option.some.inj found
      exact lower ▸ startsWith_length starts
    · cases found

-- Where the matcher does not look back, what stands before the text is no matter.
theorem replace_prev {matcher : Matcher} (blind : ∀ prev other text, matcher prev text = matcher other text) (value : Text) (skip : Nat)
    (prev other : Option Char) (text : Text) : replaceFrom matcher value skip prev text = replaceFrom matcher value skip other text := by
  cases text with
  | nil => cases skip <;> rfl
  | cons c text =>
    cases skip with
    | zero => rw [replaceFrom,replaceFrom,blind prev other]
    | succ skip => rfl

theorem either_prev (skip : Nat) (prev other : Option Char) (text : Text) :
    replaceFrom (eitherWord first second) [] skip prev text = replaceFrom (eitherWord first second) [] skip other text :=
  replace_prev (fun _ _ _ => rfl) [] skip prev other text

theorem residue_append (one : first.all isWordChar = true) (two : second.all isWordChar = true)
    (apart : rest.head?.any isWordChar = false) (skip : Nat) (short : skip ≤ letters.length) (prev : Option Char) :
    replaceFrom (eitherWord first second) [] skip prev (letters ++ rest) =
      replaceFrom (eitherWord first second) [] skip prev letters ++ residue first second rest := by
  induction letters generalizing skip prev with
  | nil =>
    obtain rfl : skip = 0 := by simpa using short
    exact either_prev 0 prev none rest
  | cons c letters ih =>
    cases skip with
    | succ skip => exact ih skip (by simpa using short) _
    | zero =>
      have same : eitherWord first second prev (c :: letters ++ rest) = eitherWord first second prev (c :: letters) :=
        either_apart one two apart prev prev
      rw [List.cons_append] at same ⊢
      rw [replaceFrom,replaceFrom,same]
      cases found : eitherWord first second prev (c :: letters) with
      | none => exact congrArg (c :: ·) (ih 0 (by simp) _)
      | some length =>
        have fits := either_length found
        cases length with
        | zero => exact congrArg (c :: ·) (ih 0 (by simp) _)
        | succ length =>
          exact ih length (by simpa using fits) _

theorem removed_chars (matcher : Matcher) (skip : Nat) (prev : Option Char) (text : Text) :
    ∀ c ∈ replaceFrom matcher [] skip prev text, c ∈ text := by
  induction text generalizing skip prev with
  | nil => cases skip <;> simp [replaceFrom]
  | cons d text ih =>
    intro c member
    cases skip with
    | succ skip => exact List.mem_cons_of_mem _ (ih skip _ c member)
    | zero =>
      unfold replaceFrom at member
      split at member
      · exact List.mem_cons_of_mem _ (ih _ _ c member)
      · rcases List.mem_cons.mp member with rfl | found
        · exact List.mem_cons_self
        · exact List.mem_cons_of_mem _ (ih _ _ c found)

theorem residue_others (one : first.head?.any isWordChar = true) (two : second.head?.any isWordChar = true)
    (others : ∀ c ∈ front, isWordChar c = false) (rest : Text) :
    residue first second (front ++ rest) = front ++ residue first second rest := by
  induction front with
  | nil => rfl
  | cons c front ih =>
    have other := others c (by simp)
    have none : eitherWord first second none (c :: (front ++ rest)) = none := by
      simp [eitherWord,startsWith_other one other,startsWith_other two other]
    rw [List.cons_append,residue,replaceAll,replaceFrom,none]
    refine congrArg (c :: ·) ?_
    rw [either_prev 0 _ Option.none]
    exact ih fun d member => others d (by simp [member])

-- Nothing but operators and blanks is left exactly when every word is used up.
theorem written_residue (one : first.head?.any isWordChar = true) (one_plain : first.all isWordChar = true)
    (two : second.head?.any isWordChar = true) (two_plain : second.all isWordChar = true)
    (allowed : Char → Bool) (blank : allowed ' ' = true) (symbols : ∀ c ∈ "!&|()".toList, allowed c = true)
    (letters_not : ∀ c, isWordChar c = true → allowed c = false)
    (written : Written lexemes text) (spelled : Spelled lexemes) :
    (residue first second text).all allowed = true ↔ ∀ letters, .word letters ∈ lexemes → residue first second letters = [] := by
  have blanks : ∀ gap, (List.replicate gap ' ').all allowed = true := by
    intro gap
    rw [List.all_eq_true]
    intro c member
    rw [List.eq_of_mem_replicate member]
    exact blank
  induction written with
  | done gap =>
    have copied := residue_others one two (blanks_other gap) []
    rw [List.append_nil] at copied
    rw [copied,List.all_append,blanks]
    simp [residue,replaceAll,replaceFrom]
  | @symbol lexeme rest text gap notWord after ih =>
    have tail : (residue first second text).all allowed = true ↔
        ∀ letters, .word letters ∈ rest → residue first second letters = [] := ih (spelled_tail spelled)
    have chars : lexeme.text.all allowed = true := by
      rw [List.all_eq_true]
      intro c member
      apply symbols
      cases lexeme with
      | word letters => exact absurd rfl (notWord letters)
      | bang | conj | disj | opening | closing => exact every_char (by decide) c member
    rw [List.append_assoc,residue_others one two (blanks_other gap),
      residue_others one two fun c member => (symbol_chars notWord c member).1,List.all_append,List.all_append,blanks,chars,
      Bool.true_and,Bool.true_and,tail]
    constructor
    · intro all letters member
      rcases List.mem_cons.mp member with same | found
      · exact absurd same.symm (notWord letters)
      · exact all letters found
    · exact fun all letters member => all letters (List.mem_cons_of_mem _ member)
  | @word rest text letters gap after apart ih =>
    have tail : (residue first second text).all allowed = true ↔
        ∀ letters, .word letters ∈ rest → residue first second letters = [] := ih (spelled_tail spelled)
    have cut : residue first second (letters ++ text) = residue first second letters ++ residue first second text :=
      residue_append one_plain two_plain apart 0 (Nat.zero_le _) none
    rw [List.append_assoc,residue_others one two (blanks_other gap)]
    rw [cut,List.all_append,List.all_append,blanks,Bool.true_and,Bool.and_eq_true,tail]
    have used : (residue first second letters).all allowed = true ↔ residue first second letters = [] := by
      constructor
      · intro all
        cases left : residue first second letters with
        | nil => rfl
        | cons c more =>
          have inside : c ∈ letters := removed_chars _ 0 none letters c (left ▸ List.mem_cons_self)
          have letter := List.all_eq_true.mp (spelled_head spelled).1 c inside
          rw [left] at all
          simp [letters_not c letter] at all
      · intro empty
        rw [empty]
        rfl
    rw [used]
    simp

end Residue

section Spacing

theorem space_blank : isSpace ' ' = true := by decide

theorem blanks_space (gap : Nat) : AllSpace (List.replicate gap ' ') := by
  intro c member
  rw [List.eq_of_mem_replicate member]
  exact space_blank

theorem lexeme_solid (lexeme : Lexeme) (spelled : Spelled (lexeme :: rest)) :
    (∀ c ∈ lexeme.text, isSpace c = false) ∧ lexeme.text ≠ [] := by
  cases lexeme with
  | word letters =>
    refine ⟨?_,spelled_some spelled⟩
    intro c member
    exact wordChar_not_space (List.all_eq_true.mp (spelled_head spelled).1 c member)
  | bang | conj | disj | opening | closing => exact ⟨every_char (by decide),by decide⟩

theorem blanks_before (blank : AllSpace gap) (solid : ∀ c ∈ front, isSpace c = false) (some : front ≠ []) (rest : Text) :
    (gap ++ front ++ rest).takeWhile isSpace = gap ∧ (gap ++ front ++ rest).dropWhile isSpace = front ++ rest := by
  induction gap with
  | nil =>
    cases front with
    | nil => exact absurd rfl some
    | cons c front => simp [solid c (by simp)]
  | cons c gap ih =>
    have first : isSpace c = true := blank c (by simp)
    obtain ⟨one,two⟩ := ih fun d member => blank d (by simp [member])
    simp only [List.cons_append,List.takeWhile_cons,List.dropWhile_cons,first,if_true,one,two]
    exact ⟨trivial,trivial⟩

def operatorText (operator : Lexeme) : Text := ' ' :: (operator.text ++ [' '])

variable {operator : Lexeme}

theorem spaced_solid (solid : isSpace c = false) (prev : Option Char) (rest : Text) :
    spacedOperator word prev (c :: rest) = none := by simp [spacedOperator,solid]

theorem spaced_prev (value : Text) (skip : Nat) (prev other : Option Char) (text : Text) :
    replaceFrom (spacedOperator word) value skip prev text = replaceFrom (spacedOperator word) value skip other text :=
  replace_prev (fun _ _ _ => rfl) value skip prev other text

theorem spaced_copied (solid : ∀ c ∈ front, isSpace c = false) (value rest : Text) :
    replaceAll (spacedOperator word) value (front ++ rest) = front ++ replaceAll (spacedOperator word) value rest := by
  induction front with
  | nil => rfl
  | cons c front ih =>
    rw [List.cons_append,replaceAll,replaceFrom,spaced_solid (solid c (by simp))]
    refine congrArg (c :: ·) ?_
    rw [spaced_prev _ _ _ none]
    exact ih fun d member => solid d (by simp [member])

theorem spaced_skip (word value front : Text) (skip : Nat) (prev : Option Char) (rest : Text) :
    replaceFrom (spacedOperator word) value (front.length + skip) prev (front ++ rest) =
      replaceFrom (spacedOperator word) value skip none rest := by
  induction front generalizing prev with
  | nil => simpa using spaced_prev value skip prev none rest
  | cons c front ih =>
    rw [List.length_cons,Nat.add_right_comm]
    exact ih (some c)

theorem operator_starts (isOperator : operator = .conj ∨ operator = .disj) (spelled : Spelled (lexeme :: more))
    (rest : Text) : startsWith (lexeme.text ++ rest) operator.text = true ↔ lexeme = operator := by
  constructor
  · intro starts
    cases lexeme with
    | word letters =>
      obtain ⟨-,first⟩ := spelled_head spelled
      cases letters with
      | nil => simp at first
      | cons c letters =>
        have letter : isWordStart c = true := by simpa using first
        rcases isOperator with rfl | rfl
        · obtain ⟨rfl,-⟩ : '&' = c ∧ _ := by simpa [startsWith,Lexeme.text] using starts
          exact absurd letter (by decide)
        · obtain ⟨rfl,-⟩ : '|' = c ∧ _ := by simpa [startsWith,Lexeme.text] using starts
          exact absurd letter (by decide)
    | bang | conj | disj | opening | closing =>
      rcases isOperator with rfl | rfl <;> first | rfl | simp [startsWith,Lexeme.text] at starts
  · rintro rfl
    simp

-- Blanks in front of a lexeme are kept unless it is the operator and blanks
-- follow it too.
theorem spaced_lexeme (isOperator : operator = .conj ∨ operator = .disj) (spelled : Spelled (lexeme :: more))
    (keeps : gap ≠ 0 → lexeme = operator → rest.head?.any isSpace = false) (value : Text) :
    replaceAll (spacedOperator operator.text) value (List.replicate gap ' ' ++ lexeme.text ++ rest) =
      List.replicate gap ' ' ++ lexeme.text ++ replaceAll (spacedOperator operator.text) value rest := by
  obtain ⟨solid,some⟩ := lexeme_solid lexeme spelled
  induction gap with
  | zero => exact spaced_copied solid value rest
  | succ gap ih =>
    obtain ⟨one,two⟩ := blanks_before (blanks_space (gap+1)) solid some rest
    have none : spacedOperator operator.text Option.none (List.replicate (gap+1) ' ' ++ lexeme.text ++ rest) = Option.none := by
      unfold spacedOperator
      simp only [one,two]
      rw [if_neg]
      intro ⟨_,starts,blank⟩
      obtain rfl := (operator_starts isOperator spelled rest).mp starts
      have stop := keeps (by simp) rfl
      rw [List.drop_left] at blank
      cases rest with
      | nil => exact blank rfl
      | cons c rest =>
        have solid_next : isSpace c = false := by simpa using stop
        simp [solid_next] at blank
    rw [List.replicate_succ,List.cons_append,List.cons_append] at none ⊢
    rw [replaceAll,replaceFrom,none]
    refine congrArg (' ' :: ·) ?_
    rw [spaced_prev _ _ _ Option.none]
    exact ih fun _ => keeps (by simp)

theorem spaced_operator (isOperator : operator = .conj ∨ operator = .disj) (follows : rest.head?.any isSpace = true)
    (gap : Nat) :
    replaceAll (spacedOperator operator.text) (operatorText operator) (List.replicate (gap+1) ' ' ++ operator.text ++ rest) =
      operatorText operator ++
        replaceFrom (spacedOperator operator.text) (operatorText operator) (rest.takeWhile isSpace).length none rest := by
  have spelled : Spelled [operator] := by
    rcases isOperator with rfl | rfl <;> simp [Spelled]
  obtain ⟨solid,some⟩ := lexeme_solid operator spelled
  obtain ⟨one,two⟩ := blanks_before (blanks_space (gap+1)) solid some rest
  have blanks : rest.takeWhile isSpace ≠ [] := by
    cases rest with
    | nil => simp at follows
    | cons c rest =>
      have blank : isSpace c = true := by simpa using follows
      simp [blank]
  have found : spacedOperator operator.text Option.none (List.replicate (gap+1) ' ' ++ operator.text ++ rest) =
      Option.some (gap + operator.text.length + (rest.takeWhile isSpace).length + 1) := by
    unfold spacedOperator
    simp only [one,two]
    rw [if_pos ⟨by simp,startsWith_append _ _,by rw [List.drop_left]; exact blanks⟩,List.drop_left,List.length_replicate]
    congr 1
    omega
  have skipped := spaced_skip operator.text (operatorText operator) (List.replicate gap ' ' ++ operator.text)
    (rest.takeWhile isSpace).length (Option.some ' ') rest
  rw [List.length_append,List.length_replicate] at skipped
  rw [List.replicate_succ,List.cons_append,List.cons_append] at found ⊢
  rw [replaceAll,replaceFrom,found]
  exact congrArg (operatorText operator ++ ·) skipped

theorem spaced_apart (apart : text.head?.any isWordChar = false) :
    (replaceAll (spacedOperator operator.text) (operatorText operator) text).head?.any isWordChar = false := by
  cases text with
  | nil => rfl
  | cons c text =>
    rw [replaceAll,replaceFrom]
    split
    · exact (by decide : isWordChar ' ' = false)
    · exact apart

theorem spaced_cursor (spelled : Spelled (lexeme :: more)) (gap : Nat) (value rest : Text) :
    replaceFrom (spacedOperator word) value ((List.replicate gap ' ' ++ lexeme.text ++ rest).takeWhile isSpace).length none
      (List.replicate gap ' ' ++ lexeme.text ++ rest) = lexeme.text ++ replaceAll (spacedOperator word) value rest := by
  obtain ⟨solid,some⟩ := lexeme_solid lexeme spelled
  have skipped := spaced_skip word value (List.replicate gap ' ') 0 none (lexeme.text ++ rest)
  rw [Nat.add_zero] at skipped
  rw [(blanks_before (blanks_space gap) solid some rest).1,List.append_assoc,skipped]
  exact spaced_copied solid value rest

theorem spaced_done (some : word ≠ []) (value : Text) (gap : Nat) :
    replaceAll (spacedOperator word) value (List.replicate gap ' ') = List.replicate gap ' ' := by
  induction gap with
  | zero => rfl
  | succ gap ih =>
    have blank : (List.replicate (gap+1) ' ').dropWhile isSpace = [] :=
      List.dropWhile_eq_nil_iff.mpr (blanks_space (gap+1))
    have never : startsWith [] word = false := by
      cases word with
      | nil => exact absurd rfl some
      | cons => rfl
    have none : spacedOperator word Option.none (List.replicate (gap+1) ' ') = Option.none := by
      unfold spacedOperator
      simp [blank,never]
    rw [List.replicate_succ] at none ⊢
    rw [replaceAll,replaceFrom,none]
    refine congrArg (' ' :: ·) ?_
    rw [spaced_prev _ _ _ Option.none]
    exact ih

-- Normalising the blanks around an operator leaves a text written from the
-- same lexemes; the second part is where the cursor stands after a match.
theorem written_spaced (isOperator : operator = .conj ∨ operator = .disj) (written : Written lexemes text)
    (spelled : Spelled lexemes) :
    Written lexemes (replaceAll (spacedOperator operator.text) (operatorText operator) text) ∧
    Written lexemes (replaceFrom (spacedOperator operator.text) (operatorText operator)
      (text.takeWhile isSpace).length none text) := by
  have some : operator.text ≠ [] := by
    rcases isOperator with rfl | rfl <;> decide
  induction written with
  | done gap =>
    have all : (List.replicate gap ' ').takeWhile isSpace = List.replicate gap ' ' :=
      List.takeWhile_eq_self_iff.mpr (blanks_space gap)
    have passed := spaced_skip operator.text (operatorText operator) (List.replicate gap ' ') 0 none []
    rw [List.append_nil,Nat.add_zero] at passed
    rw [spaced_done some,all,passed]
    exact ⟨.done gap,.done 0⟩
  | @symbol lexeme rest text gap notWord after ih =>
    obtain ⟨both,cursor⟩ := ih (spelled_tail spelled)
    refine ⟨?_,?_⟩
    · by_cases fires : gap ≠ 0 ∧ lexeme = operator ∧ text.head?.any isSpace = true
      · obtain ⟨room,rfl,follows⟩ := fires
        obtain ⟨gap,rfl⟩ := Nat.exists_eq_succ_of_ne_zero room
        rw [spaced_operator isOperator follows gap]
        have written := Written.symbol 1 notWord (written_blank cursor)
        simpa [operatorText] using written
      · rw [spaced_lexeme isOperator spelled (by simpa using fires)]
        exact .symbol gap notWord both
    · rw [spaced_cursor spelled]
      exact .symbol 0 notWord both
  | @word rest text letters gap after apart ih =>
    obtain ⟨both,cursor⟩ := ih (spelled_tail spelled)
    have notOperator : Lexeme.word letters ≠ operator := by
      rcases isOperator with rfl | rfl <;> simp
    refine ⟨?_,?_⟩
    · have keeps : gap ≠ 0 → Lexeme.word letters = operator → text.head?.any isSpace = false :=
        fun _ same => absurd same notOperator
      have kept := spaced_lexeme isOperator spelled keeps (operatorText operator)
      rw [show letters = (Lexeme.word letters).text from rfl,kept]
      exact .word gap both (spaced_apart apart)
    · rw [show letters = (Lexeme.word letters).text from rfl,spaced_cursor spelled]
      exact .word 0 both (spaced_apart apart)

end Spacing

theorem trimEnd_lexeme (spelled : Spelled (lexeme :: more)) (gap rest : Text) :
    trimEnd (gap ++ lexeme.text ++ rest) = gap ++ lexeme.text ++ trimEnd rest := by
  obtain ⟨solid,some⟩ := lexeme_solid lexeme spelled
  apply trimEnd_append
  intro c front same
  have shape := List.dropLast_concat_getLast some
  rw [← shape,← List.append_assoc] at same
  obtain rfl : lexeme.text.getLast some = c := by simpa using List.append_inj_right' same rfl
  exact solid _ (List.getLast_mem some)

theorem trimEnd_apart (apart : text.head?.any isWordChar = false) : (trimEnd text).head?.any isWordChar = false := by
  obtain ⟨tail,whole⟩ : trimEnd text <+: text := List.rdropWhile_prefix isSpace _
  cases same : trimEnd text with
  | nil => rfl
  | cons c front =>
    rw [same] at whole
    rw [← whole] at apart
    exact apart

-- Trimming takes blanks away at the ends only.
theorem written_trimEnd (written : Written lexemes text) (spelled : Spelled lexemes) : Written lexemes (trimEnd text) := by
  induction written with
  | done gap =>
    rw [show trimEnd (List.replicate gap ' ') = [] from by simpa [trimEnd] using trimEnd_space (blanks_space gap) []]
    exact .done 0
  | symbol gap notWord after ih =>
    rw [trimEnd_lexeme spelled]
    exact .symbol gap notWord (ih (spelled_tail spelled))
  | @word rest text letters gap after apart ih =>
    rw [show letters = (Lexeme.word letters).text from rfl,trimEnd_lexeme spelled]
    exact .word gap (ih (spelled_tail spelled)) (trimEnd_apart apart)

theorem written_trimStart (written : Written lexemes text) (spelled : Spelled lexemes) :
    Written lexemes (trimStart text) := by
  cases written with
  | done gap =>
    rw [show trimStart (List.replicate gap ' ') = [] from by
      simpa [trimStart] using trimStart_space (blanks_space gap) []]
    exact .done 0
  | symbol gap notWord after =>
    obtain ⟨solid,some⟩ := lexeme_solid _ spelled
    rw [trimStart,(blanks_before (blanks_space gap) solid some _).2]
    exact .symbol 0 notWord after
  | @word rest text letters gap after apart =>
    obtain ⟨solid,some⟩ := lexeme_solid _ spelled
    rw [trimStart,show letters = (Lexeme.word letters).text from rfl,(blanks_before (blanks_space gap) solid some _).2]
    exact .word 0 after apart

theorem written_trim (written : Written lexemes text) (spelled : Spelled lexemes) : Written lexemes (trim text) :=
  written_trimEnd (written_trimStart written spelled) spelled

-- Something is left of a text that has a lexeme.
theorem written_some (written : Written (lexeme :: rest) text) (spelled : Spelled (lexeme :: rest)) : text ≠ [] := by
  cases written with
  | symbol gap notWord after =>
    intro empty
    simp [symbol_some notWord] at empty
  | word gap after apart =>
    intro empty
    simp [spelled_some spelled] at empty

end BooleanSyntax
