import AdblockCompiler.BooleanPrinting
import AdblockCompiler.Conditions

namespace AdblockCompiler.Conditions
open JsText BooleanSyntax

-- The lexer reads a printed text back as its lexemes.
theorem identifier_scan {letters rest : Text} (all : letters.all isWordChar = true) (apart : rest.head?.any isWordChar = false) :
    (letters ++ rest).takeWhile isWordChar = letters ∧ (letters ++ rest).dropWhile isWordChar = rest := by
  induction letters with
  | nil =>
    cases rest with
    | nil => exact ⟨rfl,rfl⟩
    | cons c rest =>
      have other : isWordChar c = false := by simpa using apart
      simp [other]
  | cons c letters ih =>
    obtain ⟨letter,more⟩ : isWordChar c = true ∧ letters.all isWordChar = true := by simpa using all
    obtain ⟨one,two⟩ := ih (by simpa using more)
    simp [letter,one,two]

theorem tokenize_blanks (blank : AllSpace gap) (fuel : Nat) (text : Text) (room : gap.length ≤ fuel) :
    tokenizeLoop fuel (gap ++ text) = tokenizeLoop (fuel-gap.length) text := by
  induction gap generalizing fuel with
  | nil => rfl
  | cons c gap ih =>
    rw [List.length_cons] at room
    obtain ⟨fuel,rfl⟩ : ∃ less, fuel = less+1 := ⟨fuel-1,by omega⟩
    have first : isSpace c = true := blank c (by simp)
    rw [List.cons_append,tokenizeLoop,if_pos first,ih (fun d member => blank d (by simp [member])) fuel (by omega)]
    rw [List.length_cons,Nat.add_sub_add_right]

theorem tokenize_lexeme (spelled : Spelled (lexeme :: more)) (fuel : Nat) (rest : Text)
    (apart : (∃ letters, lexeme = .word letters) → rest.head?.any isWordChar = false) :
    tokenizeLoop (fuel+1) (lexeme.text ++ rest) = tokenOf lexeme :: tokenizeLoop fuel rest := by
  cases lexeme with
  | bang | conj | disj | opening | closing => rfl
  | word letters =>
    obtain ⟨all,starts⟩ := spelled_head spelled
    obtain ⟨one,two⟩ := identifier_scan all (apart ⟨letters,rfl⟩)
    cases letters with
    | nil => simp at starts
    | cons c letters =>
      have start : isWordStart c = true := by simpa using starts
      have letter : isWordChar c = true := by
        simp only [List.all_cons,Bool.and_eq_true] at all
        exact all.1
      have solid := wordChar_not_space letter
      have differs : ∀ d, isWordChar d = false → (c == d) = false := by
        intro d other
        rw [beq_eq_false_iff_ne]
        rintro rfl
        rw [letter] at other
        cases other
      rw [Lexeme.text,List.cons_append] at *
      rw [tokenizeLoop]
      simp only [solid,differs '(' (by decide),differs ')' (by decide),differs '!' (by decide),differs '&' (by decide),
        differs '|' (by decide),Bool.false_and,Bool.false_eq_true,if_false,start,if_true,one,two]
      rfl

theorem lexeme_length (spelled : Spelled (lexeme :: more)) : 0 < lexeme.text.length :=
  List.length_pos_iff.mpr (lexeme_solid lexeme spelled).2

theorem tokenize_fuel (printed : Printed lexemes text) (spelled : Spelled lexemes) (fuel : Nat)
    (room : text.length ≤ fuel) : tokenizeLoop fuel text = lexemes.map tokenOf := by
  induction printed generalizing fuel with
  | @done gap blank =>
    have read := tokenize_blanks blank fuel [] room
    rw [List.append_nil] at read
    rw [read]
    cases fuel-gap.length <;> rfl
  | @symbol gap lexeme rest text blank notWord after ih =>
    have some := lexeme_length spelled
    simp only [List.length_append] at room
    obtain ⟨left,same⟩ : ∃ left, fuel-gap.length = left+1 := ⟨fuel-gap.length-1,by omega⟩
    rw [List.append_assoc,tokenize_blanks blank fuel _ (by omega),same,
      tokenize_lexeme spelled left text fun ⟨letters,word⟩ => absurd word (notWord letters),
      ih (spelled_tail spelled) left (by omega)]
    rfl
  | @word gap rest text letters blank after apart ih =>
    have some := lexeme_length spelled
    simp only [List.length_append,Lexeme.text] at room some
    obtain ⟨left,same⟩ : ∃ left, fuel-gap.length = left+1 := ⟨fuel-gap.length-1,by omega⟩
    rw [List.append_assoc,tokenize_blanks blank fuel _ (by omega),same]
    have read := tokenize_lexeme spelled left text fun _ => apart
    unfold Lexeme.text at read
    rw [read,ih (spelled_tail spelled) left (by omega)]
    rfl

theorem tokenize_printed (printed : Printed lexemes text) (spelled : Spelled lexemes) :
    tokenize text = lexemes.map tokenOf ++ [⟨.EOF,[]⟩] := by
  rw [tokenize,tokenize_fuel printed spelled _ (Nat.le_refl _)]

theorem tokenize_written (written : Written lexemes text) (spelled : Spelled lexemes) :
    tokenize text = lexemes.map tokenOf ++ [⟨.EOF,[]⟩] :=
  tokenize_printed (written_printed written) spelled

-- A truth value in any letter case is a word that the lexer reads whole.
theorem truth_letters (spelled : TruthWord truth letters) : ∀ c ∈ letters, c.isAlpha = true := by
  have plain : ∀ c ∈ truthText truth, c.isAlpha = true := by
    cases truth with
    | true => exact every_char (by decide)
    | false => exact every_char (by decide)
  intro c member
  have lowered : c.toLower ∈ truthText truth := spelled ▸ List.mem_map_of_mem member
  rw [← Char.isAlpha_toLower_eq_isAlpha]
  exact plain _ lowered

theorem truth_spelled (spelled : TruthWord truth letters) :
    letters.all isWordChar = true ∧ letters.head?.any isWordStart = true := by
  have alpha := truth_letters spelled
  constructor
  · rw [List.all_eq_true]
    intro c member
    simp [isWordChar,Char.isAlphanum,alpha c member]
  · cases letters with
    | nil => cases truth <;> cases spelled
    | cons c rest => simp [isWordStart,alpha c]

theorem derived_spelled (derived : Derives TruthWord Identifier.text level e lexemes) : Spelled lexemes :=
  derived_words derived (fun _ _ => truth_spelled) fun id => ⟨id.letters,id.starts⟩

-- A name holds when it is the platform in any letter case.
theorem holds_exact (toLowerCase : Text → Text) (platform : Option Text) (id : Identifier) :
    holds (platform.map toLowerCase) id = decide (platform.map toLowerCase = some (lowerCase id.text)) := by
  have some : lowerCase id.text ≠ [] := by
    intro empty
    have starts := id.starts
    rw [List.map_eq_nil_iff.mp empty] at starts
    cases starts
  unfold holds evaluateIdentifier
  cases platform.map toLowerCase with
  | none => simp
  | some given =>
    by_cases same : given = lowerCase id.text
    · subst same
      simp [some]
    · have other : (lowerCase id.text == given) = false := beq_eq_false_iff_ne.mpr (Ne.symm same)
      simp [same,other]

-- Any derivation of an expression, printed with any white space, is given the
-- value of the expression.
theorem evaluateBooleanExpression_exact (toLowerCase : Text → Text) (platform : Option Text)
    (derived : Derives TruthWord Identifier.text .disjunction e lexemes) (printed : Printed lexemes text)
    (shallow : e.notDepth ≤ MAX_NOT_DEPTH) :
    evaluateBooleanExpression toLowerCase text platform =
      e.value fun id => decide (platform.map toLowerCase = some (lowerCase id.text)) := by
  have spelled := derived_spelled derived
  have trimmed := printed_trim printed spelled
  obtain ⟨first,rest,shape⟩ := List.exists_cons_of_ne_nil (derived_some derived)
  have some : trim text ≠ [] := by
    rw [shape] at trimmed spelled
    exact printed_some trimmed spelled
  have tokens := tokenize_printed trimmed spelled
  have names : holds (platform.map toLowerCase) =
      fun id => decide (platform.map toLowerCase = Option.some (lowerCase id.text)) :=
    funext (holds_exact toLowerCase platform)
  rw [evaluateBooleanExpression,if_neg some,tokens,parse_derived (platform.map toLowerCase) derived shallow,names]

def word (text : String) (letters : text.toList.all isWordChar = true) (starts : text.toList.head?.any isWordStart = true)
    (notTrue : lowerCase text.toList ≠ "true".toList) (notFalse : lowerCase text.toList ≠ "false".toList) : Identifier :=
  ⟨text.toList,letters,starts,notTrue,notFalse⟩

-- !(MAC || TRUE) over two lines, where the platform is mac.
def Mac : Identifier := word "MAC" (by decide) (by decide) (by decide) (by decide)

def notMac : Expr Identifier := .not (.group (.or (.name Mac) (.literal true)))

def notMacLexemes : List Lexeme := [.bang,.opening,.word Mac.text,.disj,.word "TRUE".toList,.closing]

theorem notMac_derived : Derives TruthWord Identifier.text .disjunction notMac notMacLexemes := by
  have truth : TruthWord true "TRUE".toList := by unfold TruthWord; decide
  have left : Derives TruthWord Identifier.text .disjunction (.name Mac) [.word Mac.text] := derives_primary (.name Mac) _
  have right : Derives TruthWord Identifier.text .conjunction (.literal true) [.word "TRUE".toList] :=
    derives_primary (.literal truth) _
  have inner : Derives TruthWord Identifier.text .disjunction (.or (.name Mac) (.literal true))
      [.word Mac.text,.disj,.word "TRUE".toList] := .or left right
  exact derives_primary (.not (.group inner)) _

theorem notMac_printed : Printed notMacLexemes "!(MAC\t||TRUE\n)".toList := by
  have six : Printed [.closing] "\n)".toList :=
    .symbol (every_char (by decide) : AllSpace "\n".toList) (by simp) (.done allSpace_nil)
  have five : Printed [.word "TRUE".toList,.closing] "TRUE\n)".toList := .word allSpace_nil six (by decide)
  have four : Printed [.disj,.word "TRUE".toList,.closing] "\t||TRUE\n)".toList :=
    .symbol (every_char (by decide) : AllSpace "\t".toList) (by simp) five
  have three : Printed [.word Mac.text,.disj,.word "TRUE".toList,.closing] "MAC\t||TRUE\n)".toList :=
    .word allSpace_nil four (by decide)
  have two : Printed [.opening,.word Mac.text,.disj,.word "TRUE".toList,.closing] "(MAC\t||TRUE\n)".toList :=
    .symbol allSpace_nil (by simp) three
  exact .symbol allSpace_nil (by simp) two

theorem notMac_evaluated :
    evaluateBooleanExpression lowerCase "!(MAC\t||TRUE\n)".toList (some "mac".toList) =
      notMac.value fun id => decide ((some "mac".toList).map lowerCase = some (lowerCase id.text)) :=
  evaluateBooleanExpression_exact lowerCase (some "mac".toList) notMac_derived notMac_printed (by decide)

end AdblockCompiler.Conditions
