import AdblockCompiler.JsText

namespace BooleanSyntax
open JsText

-- Boolean expressions over names ν. A group is a pair of parentheses that the
-- writer put there; the others are printed with those that precedence asks for.
inductive Expr (ν : Type) where
  | literal (truth : Bool)
  | name (id : ν)
  | not (inner : Expr ν)
  | and (left right : Expr ν)
  | or (left right : Expr ν)
  | group (inner : Expr ν)

inductive Lexeme where
  | word (text : Text)
  | bang | conj | disj | opening | closing
  deriving DecidableEq, Repr

def Lexeme.text : Lexeme → Text
  | .word text => text
  | .bang => ['!']
  | .conj => ['&','&']
  | .disj => ['|','|']
  | .opening => ['(']
  | .closing => [')']

def truthText : Bool → Text
  | true => "true".toList
  | false => "false".toList

-- orExpr := andExpr ('||' andExpr)*, andExpr := notExpr ('&&' notExpr)*,
-- notExpr := '!' notExpr | primary; anything looser is parenthesised.
inductive Level where
  | disjunction | conjunction | negation
  deriving DecidableEq, Repr

def parenthesise (lexemes : List Lexeme) : List Lexeme := .opening :: (lexemes ++ [.closing])

def Expr.lexemes (spell : ν → Text) : Expr ν → Level → List Lexeme
  | .literal truth,_ => [.word (truthText truth)]
  | .name id,_ => [.word (spell id)]
  | .not inner,_ => .bang :: inner.lexemes spell .negation
  | .and left right,level =>
    let plain := left.lexemes spell .conjunction ++ .conj :: right.lexemes spell .negation
    if level = .negation then parenthesise plain else plain
  | .or left right,level =>
    let plain := left.lexemes spell .disjunction ++ .disj :: right.lexemes spell .conjunction
    if level = .disjunction then plain else parenthesise plain
  | .group inner,_ => parenthesise (inner.lexemes spell .disjunction)

def Expr.value (holds : ν → Bool) : Expr ν → Bool
  | .literal truth => truth
  | .name id => holds id
  | .not inner => !inner.value holds
  | .and left right => left.value holds && right.value holds
  | .or left right => left.value holds || right.value holds
  | .group inner => inner.value holds

def Expr.notDepth : Expr ν → Nat
  | .literal _ | .name _ => 0
  | .not inner => inner.notDepth+1
  | .and left right | .or left right => max left.notDepth right.notDepth
  | .group inner => inner.notDepth

def Expr.names : Expr ν → List ν
  | .literal _ => []
  | .name id => [id]
  | .not inner | .group inner => inner.names
  | .and left right | .or left right => left.names ++ right.names

-- Evaluation from left to right that stops as soon as the value is known; a
-- name without a value is an error where it is reached.
def Expr.shortCircuit (holds : ν → Option Bool) : Expr ν → Option Bool
  | .literal truth => some truth
  | .name id => holds id
  | .not inner => (inner.shortCircuit holds).map (!·)
  | .and left right =>
    match left.shortCircuit holds with
    | some true => right.shortCircuit holds
    | other => other
  | .or left right =>
    match left.shortCircuit holds with
    | some false => right.shortCircuit holds
    | other => other
  | .group inner => inner.shortCircuit holds

theorem shortCircuit_value {holds : ν → Option Bool} (e : Expr ν) (result : e.shortCircuit holds = some truth)
    (agrees : ∀ id ∈ e.names, ∀ b, holds id = some b → given id = b) : e.value given = truth := by
  induction e generalizing truth with
  | literal b => exact Option.some.inj result
  | name id => exact agrees id (by simp [Expr.names]) truth result
  | not inner ih =>
    obtain ⟨b,found,rfl⟩ := Option.map_eq_some_iff.mp result
    rw [Expr.value,ih found agrees]
  | group inner ih => exact ih result agrees
  | and left right ihl ihr =>
    obtain ⟨one,two⟩ := List.forall_mem_append.mp agrees
    cases found : left.shortCircuit holds with
    | none => simp [Expr.shortCircuit,found] at result
    | some b =>
      cases b with
      | false => simp [Expr.shortCircuit,found] at result; subst result; simp [Expr.value,ihl found one]
      | true => rw [Expr.value,ihl found one,ihr (by simpa [Expr.shortCircuit,found] using result) two,Bool.true_and]
  | or left right ihl ihr =>
    obtain ⟨one,two⟩ := List.forall_mem_append.mp agrees
    cases found : left.shortCircuit holds with
    | none => simp [Expr.shortCircuit,found] at result
    | some b =>
      cases b with
      | true => simp [Expr.shortCircuit,found] at result; subst result; simp [Expr.value,ihl found one]
      | false => rw [Expr.value,ihl found one,ihr (by simpa [Expr.shortCircuit,found] using result) two,Bool.false_or]

def Expr.map (f : ν → Expr μ) : Expr ν → Expr μ
  | .literal truth => .literal truth
  | .name id => f id
  | .not inner => .not (inner.map f)
  | .and left right => .and (left.map f) (right.map f)
  | .or left right => .or (left.map f) (right.map f)
  | .group inner => .group (inner.map f)

-- The derivations of the grammar with the expression that each stands for. A
-- truth value may be written by several words.
inductive Derives (truthWord : Bool → Text → Prop) (spell : ν → Text) : Level → Expr ν → List Lexeme → Prop where
  | literal (spelled : truthWord truth letters) : Derives truthWord spell .negation (.literal truth) [.word letters]
  | name (id : ν) : Derives truthWord spell .negation (.name id) [.word (spell id)]
  | group (inner : Derives truthWord spell .disjunction e lexemes) :
      Derives truthWord spell .negation (.group e) (parenthesise lexemes)
  | not (inner : Derives truthWord spell .negation e lexemes) : Derives truthWord spell .negation (.not e) (.bang :: lexemes)
  | notExpr (only : Derives truthWord spell .negation e lexemes) : Derives truthWord spell .conjunction e lexemes
  | and (first : Derives truthWord spell .conjunction left one) (next : Derives truthWord spell .negation right two) :
      Derives truthWord spell .conjunction (.and left right) (one ++ .conj :: two)
  | andExpr (only : Derives truthWord spell .conjunction e lexemes) : Derives truthWord spell .disjunction e lexemes
  | or (first : Derives truthWord spell .disjunction left one) (next : Derives truthWord spell .conjunction right two) :
      Derives truthWord spell .disjunction (.or left right) (one ++ .disj :: two)

theorem derives_primary (tight : Derives truthWord spell .negation e lexemes) (level : Level) :
    Derives truthWord spell level e lexemes := by
  cases level with
  | negation => exact tight
  | conjunction => exact .notExpr tight
  | disjunction => exact .andExpr (.notExpr tight)

-- What is printed is derived, with a group for each pair of parentheses that
-- precedence asks for.
theorem derives_lexemes (truths : ∀ b, truthWord b (truthText b)) (spell : ν → Text) (e : Expr ν) (level : Level) :
    ∃ derived : Expr ν, Derives truthWord spell level derived (e.lexemes spell level) ∧
      (∀ holds, derived.value holds = e.value holds) ∧ derived.notDepth = e.notDepth := by
  induction e generalizing level with
  | literal b => exact ⟨.literal b,derives_primary (.literal (truths b)) level,fun _ => rfl,rfl⟩
  | name id => exact ⟨.name id,derives_primary (.name id) level,fun _ => rfl,rfl⟩
  | not inner ih =>
    obtain ⟨e,derived,value,depth⟩ := ih .negation
    refine ⟨.not e,derives_primary (.not derived) level,?_,congrArg (· + 1) depth⟩
    intro holds
    rw [Expr.value,Expr.value,value]
  | group inner ih =>
    obtain ⟨e,derived,value,depth⟩ := ih .disjunction
    exact ⟨.group e,derives_primary (.group derived) level,value,depth⟩
  | and left right ihl ihr =>
    obtain ⟨l,first,leftValue,leftDepth⟩ := ihl .conjunction
    obtain ⟨r,next,rightValue,rightDepth⟩ := ihr .negation
    have plain : Derives truthWord spell .conjunction (.and l r)
        (left.lexemes spell .conjunction ++ .conj :: right.lexemes spell .negation) := .and first next
    have value (holds : ν → Bool) : (Expr.and l r).value holds = (Expr.and left right).value holds := by
      rw [Expr.value,Expr.value,leftValue,rightValue]
    have depth : (Expr.and l r).notDepth = (Expr.and left right).notDepth := by
      rw [Expr.notDepth,Expr.notDepth,leftDepth,rightDepth]
    cases level with
    | negation => exact ⟨.group (.and l r),.group (.andExpr plain),value,depth⟩
    | conjunction => exact ⟨.and l r,plain,value,depth⟩
    | disjunction => exact ⟨.and l r,.andExpr plain,value,depth⟩
  | or left right ihl ihr =>
    obtain ⟨l,first,leftValue,leftDepth⟩ := ihl .disjunction
    obtain ⟨r,next,rightValue,rightDepth⟩ := ihr .conjunction
    have plain : Derives truthWord spell .disjunction (.or l r)
        (left.lexemes spell .disjunction ++ .disj :: right.lexemes spell .conjunction) := .or first next
    have value (holds : ν → Bool) : (Expr.or l r).value holds = (Expr.or left right).value holds := by
      rw [Expr.value,Expr.value,leftValue,rightValue]
    have depth : (Expr.or l r).notDepth = (Expr.or left right).notDepth := by
      rw [Expr.notDepth,Expr.notDepth,leftDepth,rightDepth]
    cases level with
    | negation => exact ⟨.group (.or l r),.group plain,value,depth⟩
    | conjunction => exact ⟨.group (.or l r),.notExpr (.group plain),value,depth⟩
    | disjunction => exact ⟨.or l r,plain,value,depth⟩

-- Lexemes written one after another with any number of blanks around them;
-- words are not glued to each other.
inductive Written : List Lexeme → Text → Prop where
  | done (gap : Nat) : Written [] (List.replicate gap ' ')
  | symbol (gap : Nat) (notWord : ∀ text, first ≠ .word text) (after : Written rest text) :
      Written (first :: rest) (List.replicate gap ' ' ++ first.text ++ text)
  | word (gap : Nat) (after : Written rest text) (apart : text.head?.any isWordChar = false) :
      Written (.word letters :: rest) (List.replicate gap ' ' ++ letters ++ text)

inductive Printed : List Lexeme → Text → Prop where
  | done (blank : AllSpace gap) : Printed [] gap
  | symbol (blank : AllSpace gap) (notWord : ∀ text, first ≠ .word text) (after : Printed rest text) :
      Printed (first :: rest) (gap ++ first.text ++ text)
  | word (blank : AllSpace gap) (after : Printed rest text) (apart : text.head?.any isWordChar = false) :
      Printed (.word letters :: rest) (gap ++ letters ++ text)

end BooleanSyntax
