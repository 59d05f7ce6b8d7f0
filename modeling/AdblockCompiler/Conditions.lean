import AdblockCompiler.BooleanSyntax

namespace AdblockCompiler.Conditions
open JsText BooleanSyntax

-- Token types of the lexer in BooleanExpressionParser.
inductive TokenType where
  | TRUE | FALSE | NOT | AND | OR | LPAREN | RPAREN | IDENTIFIER | EOF
  deriving DecidableEq, Repr

structure Token where
  type : TokenType
  value : Text
  deriving DecidableEq, Repr

def identifierToken (identifier : Text) : Token :=
  if lowerCase identifier == "true".toList then ⟨.TRUE,"true".toList⟩
  else if lowerCase identifier == "false".toList then ⟨.FALSE,"false".toList⟩
  else ⟨.IDENTIFIER,identifier⟩

-- The while loop of tokenize on the characters not read yet; every round reads
-- at least one, so their number bounds the rounds.
def tokenizeLoop : Nat → Text → List Token
  | 0,_ => []
  | _+1,[] => []
  | fuel+1,char :: rest =>
    if isSpace char then tokenizeLoop fuel rest
    else if char == '(' then ⟨.LPAREN,['(']⟩ :: tokenizeLoop fuel rest
    else if char == ')' then ⟨.RPAREN,[')']⟩ :: tokenizeLoop fuel rest
    else if char == '!' then ⟨.NOT,['!']⟩ :: tokenizeLoop fuel rest
    else if char == '&' && rest.head? == some '&' then ⟨.AND,['&','&']⟩ :: tokenizeLoop fuel rest.tail
    else if char == '|' && rest.head? == some '|' then ⟨.OR,['|','|']⟩ :: tokenizeLoop fuel rest.tail
    else if isWordStart char then
      identifierToken ((char :: rest).takeWhile isWordChar) :: tokenizeLoop fuel ((char :: rest).dropWhile isWordChar)
    else tokenizeLoop fuel rest

def tokenize (expression : Text) : List Token := tokenizeLoop expression.length expression ++ [⟨.EOF,[]⟩]

def MAX_NOT_DEPTH : Nat := 100

-- The parser holds the tokens from its position on. A nested call leaves
-- notDepth as it found it, so the counter is handed down instead of threaded.
def current (tokens : List Token) : Token := tokens.headD ⟨.EOF,[]⟩
def advance (tokens : List Token) : List Token := tokens.tail

def evaluateIdentifier (platform : Option Text) (identifier : Text) : Bool :=
  match platform with
  | none => false
  | some platform => platform ≠ [] && lowerCase identifier == platform

-- The first argument bounds the nesting of calls; parse_fuel shows that it
-- never shows in a result.
mutual
def parseOr (platform : Option Text) : Nat → Nat → List Token → Bool × List Token
  | 0,_,tokens => (false,tokens)
  | fuel+1,notDepth,tokens =>
    let left := parseAnd platform fuel notDepth tokens
    parseOrLoop platform fuel notDepth left.1 left.2
termination_by structural fuel _ _ => fuel
def parseOrLoop (platform : Option Text) : Nat → Nat → Bool → List Token → Bool × List Token
  | 0,_,left,tokens => (left,tokens)
  | fuel+1,notDepth,left,tokens =>
    if (current tokens).type = .OR then
      let right := parseAnd platform fuel notDepth (advance tokens)
      parseOrLoop platform fuel notDepth (left || right.1) right.2
    else (left,tokens)
termination_by structural fuel _ _ _ => fuel
def parseAnd (platform : Option Text) : Nat → Nat → List Token → Bool × List Token
  | 0,_,tokens => (false,tokens)
  | fuel+1,notDepth,tokens =>
    let left := parseNot platform fuel notDepth tokens
    parseAndLoop platform fuel notDepth left.1 left.2
termination_by structural fuel _ _ => fuel
def parseAndLoop (platform : Option Text) : Nat → Nat → Bool → List Token → Bool × List Token
  | 0,_,left,tokens => (left,tokens)
  | fuel+1,notDepth,left,tokens =>
    if (current tokens).type = .AND then
      let right := parseNot platform fuel notDepth (advance tokens)
      parseAndLoop platform fuel notDepth (left && right.1) right.2
    else (left,tokens)
termination_by structural fuel _ _ _ => fuel
def parseNot (platform : Option Text) : Nat → Nat → List Token → Bool × List Token
  | 0,_,tokens => (false,tokens)
  | fuel+1,notDepth,tokens =>
    if (current tokens).type = .NOT then
      if notDepth ≥ MAX_NOT_DEPTH then (false,tokens)
      else
        let inner := parseNot platform fuel (notDepth+1) (advance tokens)
        (!inner.1,inner.2)
    else parsePrimary platform fuel notDepth tokens
termination_by structural fuel _ _ => fuel
def parsePrimary (platform : Option Text) : Nat → Nat → List Token → Bool × List Token
  | 0,_,tokens => (false,tokens)
  | fuel+1,notDepth,tokens =>
    match (current tokens).type with
    | .TRUE => (true,advance tokens)
    | .FALSE => (false,advance tokens)
    | .IDENTIFIER => (evaluateIdentifier platform (current tokens).value,advance tokens)
    | .LPAREN =>
      let inner := parseOr platform fuel notDepth (advance tokens)
      (inner.1,if (current inner.2).type = .RPAREN then advance inner.2 else inner.2)
    | _ => (false,tokens)
termination_by structural fuel _ _ => fuel
end

def parse (platform : Option Text) (tokens : List Token) : Bool :=
  (parseOr platform (4*tokens.length+4) 0 tokens).1

-- toLowerCase is applied to the platform only; the identifiers of an
-- expression are ASCII words.
def evaluateBooleanExpression (toLowerCase : Text → Text) (expression : Text) (platform : Option Text) : Bool :=
  let trimmed := trim expression
  if trimmed = [] then true else parse (platform.map toLowerCase) (tokenize trimmed)

def PLATFORMS : List Text :=
  ["windows","mac","android","ios","ext_chromium","ext_ff","ext_edge","ext_opera","ext_safari","ext_ublock","adguard",
    "adguard_app_windows","adguard_app_mac","adguard_app_android","adguard_app_ios","adguard_ext_chromium",
    "adguard_ext_firefox","adguard_ext_edge","adguard_ext_opera","adguard_ext_safari"].map String.toList

-- The textual evaluator that ConditionalEvaluator and PlatformDownloader share
-- word for word: platform names become truth values, blanks around operators
-- are normalised, anything but operators and truth values is refused, and the
-- rest is run as the body of a function. newFunction is that run: none when
-- compiling or calling it throws.
section Textual
variable (newFunction : Text → Option Bool) (toLowerCase : Text → Text)

def substitute (platforms : List Text) (platform : Option Text) (expr : Text) : Text :=
  platforms.foldl (fun expr p => replaceAll (wholeWord p) (truthText (platform.map toLowerCase == some p)) expr) expr

def normalise (expr : Text) : Text :=
  replaceAll (spacedOperator "||".toList) " || ".toList (replaceAll (spacedOperator "&&".toList) " && ".toList expr)

def isSafe (expr : Text) : Bool :=
  (replaceAll (eitherWord "true".toList "false".toList) [] expr).all fun c => "!&|() ".toList.contains c

def evaluateText (platforms : List Text) (condition : Text) (platform : Option Text) : Bool :=
  let expr := trim condition
  if expr = [] then true
  else
    let expr := normalise (substitute toLowerCase platforms platform expr)
    if isSafe expr then (newFunction expr).getD false else false

def ConditionalEvaluator.evaluate (condition : Text) (platform : Option Text) : Bool :=
  evaluateText newFunction toLowerCase PLATFORMS condition platform

def PlatformDownloader.evaluateCondition (condition : Text) (platform : Option Text) : Bool :=
  evaluateText newFunction toLowerCase PLATFORMS condition platform

end Textual

theorem advance_length (present : (current tokens).type ≠ .EOF) : (advance tokens).length + 1 = tokens.length := by
  cases tokens with
  | nil => exact absurd rfl present
  | cons token rest => rfl

theorem advance_le (tokens : List Token) : (advance tokens).length ≤ tokens.length := by
  cases tokens <;> simp [advance]

theorem present (found : (current tokens).type = type) (real : type ≠ .EOF) : (current tokens).type ≠ .EOF :=
  found ▸ real

-- No call gives back more tokens than it was given.
theorem remaining (platform : Option Text) (fuel : Nat) :
    (∀ d tokens, (parseOr platform fuel d tokens).2.length ≤ tokens.length) ∧
    (∀ d left tokens, (parseOrLoop platform fuel d left tokens).2.length ≤ tokens.length) ∧
    (∀ d tokens, (parseAnd platform fuel d tokens).2.length ≤ tokens.length) ∧
    (∀ d left tokens, (parseAndLoop platform fuel d left tokens).2.length ≤ tokens.length) ∧
    (∀ d tokens, (parseNot platform fuel d tokens).2.length ≤ tokens.length) ∧
    (∀ d tokens, (parsePrimary platform fuel d tokens).2.length ≤ tokens.length) := by
  induction fuel with
  | zero => exact ⟨fun _ _ => by simp [parseOr],fun _ _ _ => by simp [parseOrLoop],fun _ _ => by simp [parseAnd],
      fun _ _ _ => by simp [parseAndLoop],fun _ _ => by simp [parseNot],fun _ _ => by simp [parsePrimary]⟩
  | succ fuel ih =>
    obtain ⟨ihOr,ihOrLoop,ihAnd,ihAndLoop,ihNot,ihPrimary⟩ := ih
    refine ⟨?_,?_,?_,?_,?_,?_⟩
    · intro d tokens
      exact Nat.le_trans (ihOrLoop _ _ _) (ihAnd _ _)
    · intro d left tokens
      unfold parseOrLoop
      split
      · exact Nat.le_trans (ihOrLoop _ _ _) (Nat.le_trans (ihAnd _ _) (advance_le _))
      · exact Nat.le_refl _
    · intro d tokens
      exact Nat.le_trans (ihAndLoop _ _ _) (ihNot _ _)
    · intro d left tokens
      unfold parseAndLoop
      split
      · exact Nat.le_trans (ihAndLoop _ _ _) (Nat.le_trans (ihNot _ _) (advance_le _))
      · exact Nat.le_refl _
    · intro d tokens
      unfold parseNot
      split
      · split
        · exact Nat.le_refl _
        · exact Nat.le_trans (ihNot _ _) (advance_le _)
      · exact ihPrimary _ _
    · intro d tokens
      unfold parsePrimary
      split
      · exact advance_le _
      · exact advance_le _
      · exact advance_le _
      · dsimp only
        split
        · exact Nat.le_trans (advance_le _) (Nat.le_trans (ihOr _ _) (advance_le _))
        · exact Nat.le_trans (ihOr _ _) (advance_le _)
      · exact Nat.le_refl _

-- One more unit of fuel changes nothing once there are about four units for
-- every token: a token is passed through at most four calls.
theorem parse_fuel (platform : Option Text) (fuel : Nat) :
    (∀ d tokens, 4*tokens.length+4 ≤ fuel → parseOr platform (fuel+1) d tokens = parseOr platform fuel d tokens) ∧
    (∀ d left tokens, 4*tokens.length+3 ≤ fuel →
      parseOrLoop platform (fuel+1) d left tokens = parseOrLoop platform fuel d left tokens) ∧
    (∀ d tokens, 4*tokens.length+3 ≤ fuel → parseAnd platform (fuel+1) d tokens = parseAnd platform fuel d tokens) ∧
    (∀ d left tokens, 4*tokens.length+2 ≤ fuel →
      parseAndLoop platform (fuel+1) d left tokens = parseAndLoop platform fuel d left tokens) ∧
    (∀ d tokens, 4*tokens.length+2 ≤ fuel → parseNot platform (fuel+1) d tokens = parseNot platform fuel d tokens) ∧
    (∀ d tokens, 4*tokens.length+1 ≤ fuel →
      parsePrimary platform (fuel+1) d tokens = parsePrimary platform fuel d tokens) := by
  induction fuel with
  | zero =>
    refine ⟨?_,?_,?_,?_,?_,?_⟩
    all_goals intros; omega
  | succ fuel ih =>
    obtain ⟨ihOr,ihOrLoop,ihAnd,ihAndLoop,ihNot,ihPrimary⟩ := ih
    obtain ⟨-,-,shortAnd,-,shortNot,-⟩ := remaining platform fuel
    refine ⟨?_,?_,?_,?_,?_,?_⟩
    · intro d tokens room
      rw [parseOr,parseOr,ihAnd _ _ (by omega)]
      exact ihOrLoop _ _ _ (by have := shortAnd d tokens; omega)
    · intro d left tokens room
      by_cases isOr : (current tokens).type = .OR
      · have less := advance_length (present isOr (by decide))
        have rest := shortAnd d (advance tokens)
        unfold parseOrLoop
        rw [if_pos isOr,if_pos isOr,ihAnd d (advance tokens) (by omega)]
        exact ihOrLoop _ _ _ (by omega)
      · unfold parseOrLoop
        rw [if_neg isOr,if_neg isOr]
    · intro d tokens room
      rw [parseAnd,parseAnd,ihNot _ _ (by omega)]
      exact ihAndLoop _ _ _ (by have := shortNot d tokens; omega)
    · intro d left tokens room
      by_cases isAnd : (current tokens).type = .AND
      · have less := advance_length (present isAnd (by decide))
        have rest := shortNot d (advance tokens)
        unfold parseAndLoop
        rw [if_pos isAnd,if_pos isAnd,ihNot d (advance tokens) (by omega)]
        exact ihAndLoop _ _ _ (by omega)
      · unfold parseAndLoop
        rw [if_neg isAnd,if_neg isAnd]
    · intro d tokens room
      by_cases isNot : (current tokens).type = .NOT
      · have less := advance_length (present isNot (by decide))
        have inner := ihNot (d+1) (advance tokens) (by omega)
        unfold parseNot
        rw [if_pos isNot,if_pos isNot,inner]
      · unfold parseNot
        rw [if_neg isNot,if_neg isNot]
        exact ihPrimary _ _ (by omega)
    · intro d tokens room
      rw [parsePrimary,parsePrimary]
      split
      · rfl
      · rfl
      · rfl
      · rename_i isParen
        have less := advance_length (present isParen (by decide))
        rw [ihOr _ _ (by omega)]
      · rfl

theorem settled (f : Nat → β) (need : Nat) (step : ∀ fuel, need ≤ fuel → f (fuel+1) = f fuel) (enough : need ≤ fuel) :
    f fuel = f need := by
  induction enough with
  | refl => rfl
  | step room ih => rw [step _ room,ih]

-- The parser's rules with fuel taken out of sight: each is its function at
-- enough fuel, and the equations below are those of the source.
section Rules
variable (platform : Option Text)

def orRule (d : Nat) (tokens : List Token) : Bool × List Token := parseOr platform (4*tokens.length+4) d tokens
def orLoopRule (d : Nat) (left : Bool) (tokens : List Token) : Bool × List Token :=
  parseOrLoop platform (4*tokens.length+3) d left tokens

def andRule (d : Nat) (tokens : List Token) : Bool × List Token := parseAnd platform (4*tokens.length+3) d tokens
def andLoopRule (d : Nat) (left : Bool) (tokens : List Token) : Bool × List Token :=
  parseAndLoop platform (4*tokens.length+2) d left tokens

def notRule (d : Nat) (tokens : List Token) : Bool × List Token := parseNot platform (4*tokens.length+2) d tokens
def primaryRule (d : Nat) (tokens : List Token) : Bool × List Token :=
  parsePrimary platform (4*tokens.length+1) d tokens

theorem or_settled (enough : 4*tokens.length+4 ≤ fuel) : parseOr platform fuel d tokens = orRule platform d tokens :=
  settled (parseOr platform · d tokens) _ (fun fuel room => (parse_fuel platform fuel).1 d tokens room) enough

theorem orLoop_settled (enough : 4*tokens.length+3 ≤ fuel) :
    parseOrLoop platform fuel d left tokens = orLoopRule platform d left tokens :=
  settled (parseOrLoop platform · d left tokens) _ (fun fuel room => (parse_fuel platform fuel).2.1 d left tokens room) enough

theorem and_settled (enough : 4*tokens.length+3 ≤ fuel) : parseAnd platform fuel d tokens = andRule platform d tokens :=
  settled (parseAnd platform · d tokens) _ (fun fuel room => (parse_fuel platform fuel).2.2.1 d tokens room) enough

theorem andLoop_settled (enough : 4*tokens.length+2 ≤ fuel) :
    parseAndLoop platform fuel d left tokens = andLoopRule platform d left tokens :=
  settled (parseAndLoop platform · d left tokens) _
    (fun fuel room => (parse_fuel platform fuel).2.2.2.1 d left tokens room) enough

theorem not_settled (enough : 4*tokens.length+2 ≤ fuel) : parseNot platform fuel d tokens = notRule platform d tokens :=
  settled (parseNot platform · d tokens) _ (fun fuel room => (parse_fuel platform fuel).2.2.2.2.1 d tokens room) enough

theorem primary_settled (enough : 4*tokens.length+1 ≤ fuel) :
    parsePrimary platform fuel d tokens = primaryRule platform d tokens :=
  settled (parsePrimary platform · d tokens) _ (fun fuel room => (parse_fuel platform fuel).2.2.2.2.2 d tokens room) enough

theorem orRule_eq (d : Nat) (tokens : List Token) :
    orRule platform d tokens = orLoopRule platform d (andRule platform d tokens).1 (andRule platform d tokens).2 := by
  have short := (remaining platform (4*tokens.length+3)).2.2.1 d tokens
  rw [orRule,parseOr]
  exact orLoop_settled platform (by omega)

theorem orLoopRule_or (d : Nat) (left : Bool) (text : Text) (rest : List Token) :
    orLoopRule platform d left (⟨.OR,text⟩ :: rest) =
      orLoopRule platform d (left || (andRule platform d rest).1) (andRule platform d rest).2 := by
  have short := (remaining platform (4*rest.length+3)).2.2.1 d rest
  rw [orLoopRule,parseOrLoop,if_pos (show (current (⟨.OR,text⟩ :: rest)).type = .OR from rfl)]
  show parseOrLoop platform _ d (left || (parseAnd platform _ d rest).1) (parseAnd platform _ d rest).2 = _
  rw [and_settled platform (by simp only [List.length_cons]; omega)]
  exact orLoop_settled platform (by simp only [List.length_cons]; simp only [andRule]; omega)

theorem orLoopRule_stop (stop : (current tokens).type ≠ .OR) : orLoopRule platform d left tokens = (left,tokens) := by
  rw [orLoopRule,parseOrLoop,if_neg stop]

theorem andRule_eq (d : Nat) (tokens : List Token) :
    andRule platform d tokens = andLoopRule platform d (notRule platform d tokens).1 (notRule platform d tokens).2 := by
  have short := (remaining platform (4*tokens.length+2)).2.2.2.2.1 d tokens
  rw [andRule,parseAnd]
  exact andLoop_settled platform (by omega)

theorem andLoopRule_and (d : Nat) (left : Bool) (text : Text) (rest : List Token) :
    andLoopRule platform d left (⟨.AND,text⟩ :: rest) =
      andLoopRule platform d (left && (notRule platform d rest).1) (notRule platform d rest).2 := by
  have short := (remaining platform (4*rest.length+2)).2.2.2.2.1 d rest
  rw [andLoopRule,parseAndLoop,if_pos (show (current (⟨.AND,text⟩ :: rest)).type = .AND from rfl)]
  show parseAndLoop platform _ d (left && (parseNot platform _ d rest).1) (parseNot platform _ d rest).2 = _
  rw [not_settled platform (by simp only [List.length_cons]; omega)]
  exact andLoop_settled platform (by simp only [List.length_cons]; simp only [notRule]; omega)

theorem andLoopRule_stop (stop : (current tokens).type ≠ .AND) : andLoopRule platform d left tokens = (left,tokens) := by
  rw [andLoopRule,parseAndLoop,if_neg stop]

theorem notRule_not (room : d < MAX_NOT_DEPTH) (text : Text) (rest : List Token) :
    notRule platform d (⟨.NOT,text⟩ :: rest) = (!(notRule platform (d+1) rest).1,(notRule platform (d+1) rest).2) := by
  rw [notRule,parseNot,if_pos (show (current (⟨.NOT,text⟩ :: rest)).type = .NOT from rfl),if_neg (by omega)]
  show (!(parseNot platform _ (d+1) rest).1,(parseNot platform _ (d+1) rest).2) = _
  rw [not_settled platform (by simp only [List.length_cons]; omega)]

theorem notRule_primary (other : (current tokens).type ≠ .NOT) :
    notRule platform d tokens = primaryRule platform d tokens := by
  rw [notRule,parseNot,if_neg other]
  exact primary_settled platform (by omega)

theorem primaryRule_paren (d : Nat) (text : Text) (rest : List Token) :
    primaryRule platform d (⟨.LPAREN,text⟩ :: rest) =
      ((orRule platform d rest).1,if (current (orRule platform d rest).2).type = .RPAREN
        then advance (orRule platform d rest).2 else (orRule platform d rest).2) := by
  rw [primaryRule,parsePrimary]
  show ((parseOr platform _ d rest).1,if (current (parseOr platform _ d rest).2).type = .RPAREN
    then advance (parseOr platform _ d rest).2 else (parseOr platform _ d rest).2) = _
  rw [or_settled platform (by simp; omega)]

end Rules

-- The words an expression is written with: an identifier is a word that is not
-- read as a truth value.
structure Identifier where
  text : Text
  letters : text.all isWordChar = true
  starts : text.head?.any isWordStart = true
  notTrue : lowerCase text ≠ "true".toList
  notFalse : lowerCase text ≠ "false".toList

def tokenOf : Lexeme → Token
  | .word text => identifierToken text
  | .bang => ⟨.NOT,['!']⟩
  | .conj => ⟨.AND,['&','&']⟩
  | .disj => ⟨.OR,['|','|']⟩
  | .opening => ⟨.LPAREN,['(']⟩
  | .closing => ⟨.RPAREN,[')']⟩

def tokensAt (e : Expr Identifier) (level : Level) : List Token := (e.lexemes Identifier.text level).map tokenOf

def holds (platform : Option Text) (id : Identifier) : Bool := evaluateIdentifier platform id.text

theorem identifier_token (id : Identifier) : identifierToken id.text = ⟨.IDENTIFIER,id.text⟩ := by
  simp only [identifierToken,beq_iff_eq,id.notTrue,id.notFalse,if_false]

section Parsing
variable {platform : Option Text}

theorem and_of_not (parsed : notRule platform d tokens = (truth,rest)) :
    andRule platform d tokens = andLoopRule platform d truth rest := by rw [andRule_eq,parsed]

theorem or_of_and (parsed : andRule platform d tokens = andLoopRule platform d truth rest)
    (stop : (current rest).type ≠ .AND) : orRule platform d tokens = orLoopRule platform d truth rest := by
  rw [orRule_eq,parsed,andLoopRule_stop platform stop]

theorem not_of_or (inner rest : List Token)
    (parsed : orRule platform d (inner ++ ⟨.RPAREN,[')']⟩ :: rest) = orLoopRule platform d truth (⟨.RPAREN,[')']⟩ :: rest)) :
    notRule platform d (⟨.LPAREN,['(']⟩ :: (inner ++ ⟨.RPAREN,[')']⟩ :: rest)) = (truth,rest) := by
  have done : orLoopRule platform d truth (⟨.RPAREN,[')']⟩ :: rest) = (truth,⟨.RPAREN,[')']⟩ :: rest) :=
    orLoopRule_stop platform (by intro same; cases same)
  rw [notRule_primary platform (by intro same; cases same),primaryRule_paren,parsed,done]
  rfl

-- Reading an expression printed at a level: after a negation the cursor stands
-- exactly behind it; at the looser levels the loop goes on with its value.
structure Reads (platform : Option Text) (e : Expr Identifier) : Prop where
  negation : ∀ d rest, e.notDepth + d ≤ MAX_NOT_DEPTH →
    notRule platform d (tokensAt e .negation ++ rest) = (e.value (holds platform),rest)
  conjunction : ∀ d rest, e.notDepth + d ≤ MAX_NOT_DEPTH →
    andRule platform d (tokensAt e .conjunction ++ rest) = andLoopRule platform d (e.value (holds platform)) rest
  disjunction : ∀ d rest, e.notDepth + d ≤ MAX_NOT_DEPTH → (current rest).type ≠ .AND →
    orRule platform d (tokensAt e .disjunction ++ rest) = orLoopRule platform d (e.value (holds platform)) rest

-- A truth value is written in any letter case.
def TruthWord (truth : Bool) (letters : Text) : Prop := lowerCase letters = truthText truth

-- What the rule of each level makes of the tokens of an expression.
def ReadAt (platform : Option Text) (e : Expr Identifier) (tokens : List Token) : Level → Prop
  | .negation => ∀ d rest, e.notDepth + d ≤ MAX_NOT_DEPTH →
    notRule platform d (tokens ++ rest) = (e.value (holds platform),rest)
  | .conjunction => ∀ d rest, e.notDepth + d ≤ MAX_NOT_DEPTH →
    andRule platform d (tokens ++ rest) = andLoopRule platform d (e.value (holds platform)) rest
  | .disjunction => ∀ d rest, e.notDepth + d ≤ MAX_NOT_DEPTH → (current rest).type ≠ .AND →
    orRule platform d (tokens ++ rest) = orLoopRule platform d (e.value (holds platform)) rest

theorem word_read (rest : List Token) (type : TokenType) (value : Text)
    (read : ∀ tokens, primaryRule platform d (⟨type,value⟩ :: tokens) = (truth,tokens)) (other : type ≠ .NOT) :
    notRule platform d (⟨type,value⟩ :: rest) = (truth,rest) := by
  rw [notRule_primary platform (show (current (⟨type,value⟩ :: rest)).type ≠ .NOT from other),read]

theorem truth_token (spelled : TruthWord truth letters) :
    identifierToken letters = if truth then ⟨.TRUE,"true".toList⟩ else ⟨.FALSE,"false".toList⟩ := by
  unfold TruthWord at spelled
  cases truth with
  | true => simp [identifierToken,spelled,truthText]
  | false => simp [identifierToken,spelled,truthText]

theorem parenthesised (inner : List Lexeme) (rest : List Token) :
    (parenthesise inner).map tokenOf ++ rest = ⟨.LPAREN,['(']⟩ :: (inner.map tokenOf ++ ⟨.RPAREN,[')']⟩ :: rest) := by
  simp [parenthesise,tokenOf]

-- By induction on the derivation: the cursor ends behind the expression, and a
-- loop goes on with its value.
theorem derived_read (platform : Option Text) (derived : Derives TruthWord Identifier.text level e lexemes) :
    ReadAt platform e (lexemes.map tokenOf) level := by
  induction derived with
  | @literal truth letters spelled =>
    intro d rest _
    rw [List.map_singleton,tokenOf,truth_token spelled]
    cases truth with
    | true => exact word_read rest .TRUE _ (fun tokens => by rw [primaryRule,parsePrimary]; rfl) (by decide)
    | false => exact word_read rest .FALSE _ (fun tokens => by rw [primaryRule,parsePrimary]; rfl) (by decide)
  | name id =>
    intro d rest _
    rw [List.map_singleton,tokenOf,identifier_token]
    exact word_read rest .IDENTIFIER _ (fun tokens => by rw [primaryRule,parsePrimary]; rfl) (by decide)
  | group inner ih =>
    intro d rest room
    rw [parenthesised]
    exact not_of_or _ rest (ih d _ room (by intro same; cases same))
  | @not inner lexemes derived ih =>
    intro d rest room
    have less : inner.notDepth + (d+1) ≤ MAX_NOT_DEPTH := by simp only [Expr.notDepth] at room; omega
    have below : d < MAX_NOT_DEPTH := by omega
    show notRule platform d (⟨.NOT,['!']⟩ :: (lexemes.map tokenOf ++ rest)) = _
    rw [notRule_not platform below,ih (d+1) rest less]
    rfl
  | notExpr only ih =>
    intro d rest room
    exact and_of_not (ih d rest room)
  | @and left one right two first next ihl ihr =>
    intro d rest room
    simp only [Expr.notDepth] at room
    have split : (one ++ .conj :: two).map tokenOf ++ rest =
        one.map tokenOf ++ (⟨.AND,['&','&']⟩ :: (two.map tokenOf ++ rest)) := by
      simp [tokenOf]
    rw [split,ihl d _ (by omega),andLoopRule_and,ihr d rest (by omega)]
    rfl
  | andExpr only ih =>
    intro d rest room stop
    exact or_of_and (ih d rest room) stop
  | @or left one right two first next ihl ihr =>
    intro d rest room stop
    simp only [Expr.notDepth] at room
    have split : (one ++ .disj :: two).map tokenOf ++ rest =
        one.map tokenOf ++ (⟨.OR,['|','|']⟩ :: (two.map tokenOf ++ rest)) := by
      simp [tokenOf]
    rw [split,ihl d _ (by omega) (by intro same; cases same),orLoopRule_or,ihr d rest (by omega),
      andLoopRule_stop platform stop]
    rfl

theorem reads (platform : Option Text) (e : Expr Identifier) : Reads platform e := by
  have read (level : Level) : ∃ derived : Expr Identifier, ReadAt platform derived (tokensAt e level) level ∧
      (∀ holds, derived.value holds = e.value holds) ∧ derived.notDepth = e.notDepth := by
    have truths : ∀ b, TruthWord b (truthText b) := by unfold TruthWord; decide
    obtain ⟨derived,found,value,depth⟩ := derives_lexemes truths Identifier.text e level
    exact ⟨derived,derived_read platform found,value,depth⟩
  refine ⟨?_,?_,?_⟩
  · intro d rest room
    obtain ⟨derived,tokens,value,depth⟩ := read .negation
    rw [tokens d rest (depth ▸ room),value]
  · intro d rest room
    obtain ⟨derived,tokens,value,depth⟩ := read .conjunction
    rw [tokens d rest (depth ▸ room),value]
  · intro d rest room stop
    obtain ⟨derived,tokens,value,depth⟩ := read .disjunction
    rw [tokens d rest (depth ▸ room) stop,value]

end Parsing

-- The parser decides the value of the expression its tokens are derived from.
theorem parse_derived (platform : Option Text) (derived : Derives TruthWord Identifier.text .disjunction e lexemes)
    (shallow : e.notDepth ≤ MAX_NOT_DEPTH) :
    parse platform (lexemes.map tokenOf ++ [⟨.EOF,[]⟩]) = e.value (holds platform) := by
  have read := derived_read platform derived 0 [⟨.EOF,[]⟩] shallow (by decide)
  rw [orLoopRule_stop platform (by decide)] at read
  show (orRule platform 0 _).1 = _
  rw [read]

theorem parse_value (platform : Option Text) (e : Expr Identifier) (shallow : e.notDepth ≤ MAX_NOT_DEPTH) :
    parse platform (tokensAt e .disjunction ++ [⟨.EOF,[]⟩]) = e.value (holds platform) := by
  have read := (reads platform e).disjunction 0 [⟨.EOF,[]⟩] shallow (by decide)
  rw [orLoopRule_stop platform (by decide)] at read
  show (orRule platform 0 _).1 = _
  rw [read]

end AdblockCompiler.Conditions
