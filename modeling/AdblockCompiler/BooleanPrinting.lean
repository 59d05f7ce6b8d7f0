import AdblockCompiler.BooleanRewriting

namespace BooleanSyntax
open JsText

-- A text with single blanks for its gaps is a printed one.
theorem written_printed (written : Written lexemes text) : Printed lexemes text := by
  induction written with
  | done gap => exact .done (blanks_space gap)
  | symbol gap notWord after ih => exact .symbol (blanks_space gap) notWord ih
  | word gap after apart ih => exact .word (blanks_space gap) ih apart

theorem trimEnd_blank (blank : AllSpace gap) : trimEnd gap = [] := by
  have none := trimEnd_space blank []
  rw [List.nil_append] at none
  exact none

theorem trimStart_blank (blank : AllSpace gap) : trimStart gap = [] := by
  have none := trimStart_space blank []
  rw [List.append_nil] at none
  exact none

theorem printed_trimEnd (printed : Printed lexemes text) (spelled : Spelled lexemes) : Printed lexemes (trimEnd text) := by
  induction printed with
  | done blank =>
    rw [trimEnd_blank blank]
    exact .done allSpace_nil
  | symbol blank notWord after ih =>
    rw [trimEnd_lexeme spelled]
    exact .symbol blank notWord (ih (spelled_tail spelled))
  | @word gap rest text letters blank after apart ih =>
    have kept := trimEnd_lexeme spelled gap text
    unfold Lexeme.text at kept
    rw [kept]
    exact .word blank (ih (spelled_tail spelled)) (trimEnd_apart apart)

theorem printed_trimStart (printed : Printed lexemes text) (spelled : Spelled lexemes) :
    Printed lexemes (trimStart text) := by
  cases printed with
  | done blank =>
    rw [trimStart_blank blank]
    exact .done allSpace_nil
  | symbol blank notWord after =>
    obtain ⟨solid,some⟩ := lexeme_solid _ spelled
    rw [trimStart,(blanks_before blank solid some _).2]
    exact .symbol allSpace_nil notWord after
  | @word gap rest text letters blank after apart =>
    obtain ⟨solid,some⟩ := lexeme_solid _ spelled
    rw [trimStart,show letters = (Lexeme.word letters).text from rfl,(blanks_before blank solid some _).2]
    exact .word allSpace_nil after apart

theorem printed_trim (printed : Printed lexemes text) (spelled : Spelled lexemes) : Printed lexemes (trim text) :=
  printed_trimEnd (printed_trimStart printed spelled) spelled

theorem printed_some (printed : Printed (lexeme :: rest) text) (spelled : Spelled (lexeme :: rest)) : text ≠ [] := by
  cases printed with
  | symbol blank notWord after =>
    intro empty
    simp [symbol_some notWord] at empty
  | word blank after apart =>
    intro empty
    simp [spelled_some spelled] at empty

-- Every derivation has a lexeme, and its words are those of truth values and of
-- names.
theorem derived_some (derived : Derives truthWord spell level e lexemes) : lexemes ≠ [] := by
  induction derived with
  | literal spelled => simp
  | name id => simp
  | group inner ih => simp [parenthesise]
  | not inner ih => simp
  | notExpr only ih => exact ih
  | and first next ihl ihr => simp
  | andExpr only ih => exact ih
  | or first next ihl ihr => simp

theorem derived_words {P : Text → Prop} (derived : Derives truthWord spell level e lexemes)
    (truths : ∀ b letters, truthWord b letters → P letters) (names : ∀ id, P (spell id)) :
    ∀ letters, .word letters ∈ lexemes → P letters := by
  induction derived with
  | literal spelled =>
    intro letters member
    obtain rfl : letters = _ := by simpa using member
    exact truths _ _ spelled
  | name id =>
    intro letters member
    obtain rfl : letters = spell id := by simpa using member
    exact names id
  | group inner ih =>
    intro letters member
    exact ih letters (by simpa [parenthesise] using member)
  | not inner ih =>
    intro letters member
    exact ih letters (by simpa using member)
  | notExpr only ih => exact ih
  | @and left one right two first next ihl ihr =>
    intro letters member
    have parts : Lexeme.word letters ∈ one ∨ Lexeme.word letters ∈ two := by simpa using member
    cases parts with
    | inl left => exact ihl letters left
    | inr right => exact ihr letters right
  | andExpr only ih => exact ih
  | @or left one right two first next ihl ihr =>
    intro letters member
    have parts : Lexeme.word letters ∈ one ∨ Lexeme.word letters ∈ two := by simpa using member
    cases parts with
    | inl left => exact ihl letters left
    | inr right => exact ihr letters right

end BooleanSyntax
