import AdblockCompiler.ConditionMeaning

namespace AdblockCompiler.Conditions
open JsText BooleanSyntax

section Words

-- A property of the words of a printed expression is one of the truth values
-- and of the names.
theorem words_iff (spell : ν → Text) (P : Text → Prop) (truths : ∀ b, P (truthText b)) (e : Expr ν) (level : Level) :
    (∀ letters, .word letters ∈ e.lexemes spell level → P letters) ↔ ∀ id ∈ e.names, P (spell id) := by
  have wrapped : ∀ lexemes, (∀ letters, .word letters ∈ parenthesise lexemes → P letters) ↔
      ∀ letters, .word letters ∈ lexemes → P letters := by
    intro lexemes
    simp [parenthesise]
  induction e generalizing level with
  | literal b => simp [Expr.lexemes,Expr.names,truths]
  | name id => simp [Expr.lexemes,Expr.names]
  | not inner ih =>
    refine Iff.trans ?_ (ih .negation)
    simp [Expr.lexemes]
  | group inner ih =>
    exact (wrapped _).trans (ih .disjunction)
  | and left right ihl ihr =>
    have both : (∀ letters, .word letters ∈ left.lexemes spell .conjunction ++ .conj :: right.lexemes spell .negation →
        P letters) ↔ ∀ id ∈ (Expr.and left right).names, P (spell id) := by
      simp only [Expr.names,List.mem_append,List.mem_cons,reduceCtorEq,false_or,or_imp,forall_and]
      exact and_congr (ihl .conjunction) (ihr .negation)
    rw [Expr.lexemes,← both]
    split
    · exact wrapped _
    · exact Iff.rfl
  | or left right ihl ihr =>
    have both : (∀ letters, .word letters ∈ left.lexemes spell .disjunction ++ .disj :: right.lexemes spell .conjunction →
        P letters) ↔ ∀ id ∈ (Expr.or left right).names, P (spell id) := by
      simp only [Expr.names,List.mem_append,List.mem_cons,reduceCtorEq,false_or,or_imp,forall_and]
      exact and_congr (ihl .disjunction) (ihr .conjunction)
    rw [Expr.lexemes,← both]
    split
    · exact Iff.rfl
    · exact wrapped _

theorem lexemes_some (spell : ν → Text) (e : Expr ν) (level : Level) : e.lexemes spell level ≠ [] := by
  cases e with
  | literal b => simp [Expr.lexemes]
  | name id => simp [Expr.lexemes]
  | not inner => simp [Expr.lexemes]
  | group inner => simp [Expr.lexemes,parenthesise]
  | and left right =>
    unfold Expr.lexemes
    split <;> simp [parenthesise]
  | or left right =>
    unfold Expr.lexemes
    split <;> simp [parenthesise]

theorem spelled_expr (e : Expr Identifier) (level : Level) : Spelled (e.lexemes Identifier.text level) := by
  have words := words_iff Identifier.text (fun letters => letters.all isWordChar = true ∧ letters.head?.any isWordStart = true)
    (by decide) e level
  exact words.mpr fun id _ => ⟨id.letters,id.starts⟩

-- Renaming words acts on the names of an expression.
theorem lexemes_map (spell : ν → Text) (rename : Text → Text) (truths : ∀ b, rename (truthText b) = truthText b)
    (f : ν → Expr ν) (renamed : ∀ id level, [Lexeme.word (rename (spell id))] = (f id).lexemes spell level) (e : Expr ν)
    (level : Level) : (e.lexemes spell level).map (renameLexeme rename) = (e.map f).lexemes spell level := by
  have wrapped : ∀ lexemes, (parenthesise lexemes).map (renameLexeme rename) =
      parenthesise (lexemes.map (renameLexeme rename)) := by
    intro lexemes
    simp [parenthesise,renameLexeme]
  induction e generalizing level with
  | literal b => simp [Expr.lexemes,Expr.map,renameLexeme,truths]
  | name id => exact renamed id level
  | not inner ih => exact congrArg (Lexeme.bang :: ·) (ih .negation)
  | group inner ih =>
    rw [Expr.map,Expr.lexemes,Expr.lexemes,wrapped,ih]
  | and left right ihl ihr =>
    rw [Expr.map,Expr.lexemes,Expr.lexemes,← ihl,← ihr]
    split
    · rw [wrapped,List.map_append,List.map_cons]
      rfl
    · rw [List.map_append,List.map_cons]
      rfl
  | or left right ihl ihr =>
    rw [Expr.map,Expr.lexemes,Expr.lexemes,← ihl,← ihr]
    split
    · rw [List.map_append,List.map_cons]
      rfl
    · rw [wrapped,List.map_append,List.map_cons]
      rfl

theorem names_map (f : ν → Expr μ) (e : Expr ν) : (e.map f).names = e.names.flatMap fun id => (f id).names := by
  induction e with
  | literal b => rfl
  | name id => simp [Expr.map,Expr.names]
  | not inner ih => exact ih
  | group inner ih => exact ih
  | and left right ihl ihr => simp [Expr.map,Expr.names,ihl,ihr]
  | or left right ihl ihr => simp [Expr.map,Expr.names,ihl,ihr]

theorem value_map (f : ν → Expr μ) (given : μ → Bool) (e : Expr ν) :
    (e.map f).value given = e.value fun id => (f id).value given := by
  induction e with
  | literal b => rfl
  | name id => rfl
  | not inner ih => rw [Expr.map,Expr.value,Expr.value,ih]
  | group inner ih => exact ih
  | and left right ihl ihr => rw [Expr.map,Expr.value,Expr.value,ihl,ihr]
  | or left right ihl ihr => rw [Expr.map,Expr.value,Expr.value,ihl,ihr]

end Words

-- Both evaluators trim the text first.
theorem written_condition (e : Expr Identifier) (written : Written (e.lexemes Identifier.text .disjunction) condition) :
    Written (e.lexemes Identifier.text .disjunction) (trim condition) ∧ trim condition ≠ [] := by
  have spelled := spelled_expr e .disjunction
  have trimmed := written_trim written spelled
  refine ⟨trimmed,?_⟩
  obtain ⟨first,rest,shape⟩ := List.exists_cons_of_ne_nil (lexemes_some Identifier.text e .disjunction)
  rw [shape] at trimmed spelled
  exact written_some trimmed spelled

section Agreement
variable (toLowerCase : Text → Text)

-- The parser gives a written expression its value.
theorem evaluate_value (platform : Option Text) (e : Expr Identifier) (shallow : e.notDepth ≤ MAX_NOT_DEPTH)
    (written : Written (e.lexemes Identifier.text .disjunction) condition) :
    evaluateBooleanExpression toLowerCase condition platform = e.value (holds (platform.map toLowerCase)) := by
  obtain ⟨trimmed,some⟩ := written_condition e written
  have tokens := tokenize_written trimmed (spelled_expr e .disjunction)
  rw [evaluateBooleanExpression,if_neg some,tokens]
  exact parse_value (platform.map toLowerCase) e shallow

def truthOf (platform : Option Text) (p : Text) : Text := truthText (platform.map toLowerCase == some p)

def renameAll (platforms : List Text) (platform : Option Text) (letters : Text) : Text :=
  platforms.foldl (fun letters p => renameWord p (truthOf toLowerCase platform p) letters) letters

theorem truthText_lower (b : Bool) : lowerCase (truthText b) = truthText b := by
  cases b <;> decide

theorem rename_truth (platforms : List Text) (foreign : ∀ b, truthText b ∉ platforms) (platform : Option Text) (b : Bool) :
    renameAll toLowerCase platforms platform (truthText b) = truthText b := by
  induction platforms with
  | nil => rfl
  | cons p platforms ih =>
    have differs : lowerCase (truthText b) ≠ p := by
      rw [truthText_lower]
      rintro rfl
      exact foreign b List.mem_cons_self
    rw [renameAll,List.foldl_cons,renameWord,if_neg differs]
    exact ih fun b member => foreign b (List.mem_cons_of_mem _ member)

theorem rename_known (platforms : List Text) (foreign : ∀ b, truthText b ∉ platforms) (platform : Option Text)
    (letters : Text) : renameAll toLowerCase platforms platform letters =
      if lowerCase letters ∈ platforms then truthOf toLowerCase platform (lowerCase letters) else letters := by
  induction platforms with
  | nil => rfl
  | cons p platforms ih =>
    have less : ∀ b, truthText b ∉ platforms := fun b member => foreign b (List.mem_cons_of_mem _ member)
    by_cases same : lowerCase letters = p
    · rw [renameAll,List.foldl_cons,renameWord,if_pos same]
      rw [if_pos (by simp [same]),same]
      exact rename_truth toLowerCase platforms less platform _
    · rw [renameAll,List.foldl_cons,renameWord,if_neg same]
      refine (ih less).trans ?_
      simp [same]

theorem written_substitute (platforms : List Text) (plain : ∀ p ∈ platforms, p.head?.any isWordChar = true ∧ p.all isWordChar = true)
    (platform : Option Text) (written : Written lexemes text) (spelled : Spelled lexemes) :
    Written (lexemes.map (renameLexeme (renameAll toLowerCase platforms platform)))
      (substitute toLowerCase platforms platform text) ∧
    Spelled (lexemes.map (renameLexeme (renameAll toLowerCase platforms platform))) := by
  induction platforms generalizing lexemes text with
  | nil =>
    have same : renameLexeme (renameAll toLowerCase [] platform) = id := by
      funext lexeme
      cases lexeme <;> rfl
    rw [same,List.map_id]
    exact ⟨written,spelled⟩
  | cons p platforms ih =>
    obtain ⟨some,all⟩ := plain p List.mem_cons_self
    have value_all : (truthOf toLowerCase platform p).all isWordChar = true := by
      unfold truthOf
      cases platform.map toLowerCase == Option.some p <;> decide
    have value_start : (truthOf toLowerCase platform p).head?.any isWordStart = true := by
      unfold truthOf
      cases platform.map toLowerCase == Option.some p <;> decide
    have one : Written (lexemes.map (renameLexeme (renameWord p (truthOf toLowerCase platform p))))
        (replaceAll (wholeWord p) (truthOf toLowerCase platform p) text) := written_rename some all written spelled
    have two : Spelled (lexemes.map (renameLexeme (renameWord p (truthOf toLowerCase platform p)))) :=
      spelled_rename spelled value_all value_start
    have both := ih (fun p member => plain p (List.mem_cons_of_mem _ member)) one two
    have chained : renameLexeme (renameAll toLowerCase platforms platform) ∘
        renameLexeme (renameWord p (truthOf toLowerCase platform p)) =
        renameLexeme (renameAll toLowerCase (p :: platforms) platform) := by
      funext lexeme
      cases lexeme <;> rfl
    rw [List.map_map,chained] at both
    exact both

def Known (id : Identifier) : Prop := lowerCase id.text ∈ PLATFORMS

instance : DecidablePred Known := fun id => inferInstanceAs (Decidable (lowerCase id.text ∈ PLATFORMS))

-- What the textual evaluator leaves of an expression: platform names are truth
-- values and the others are still names.
def residual (platform : Option Text) (e : Expr Identifier) : Expr Identifier :=
  e.map fun id => if Known id then .literal (platform.map toLowerCase == some (lowerCase id.text)) else .name id

-- A word that the check for unknown tokens does not see: its letters are those
-- of truth values.
def Unseen (id : Identifier) : Prop := residue "true".toList "false".toList id.text = []

instance : DecidablePred Unseen := fun id => inferInstanceAs (Decidable (residue _ _ id.text = []))

-- The function constructor runs a written expression as JavaScript does: from
-- left to right, with an error at the first name it reaches.
def RunsAs (newFunction : Text → Option Bool) (e : Expr Identifier) : Prop :=
  (∀ id ∈ e.names, Unseen id) →
    ∀ text, Written (e.lexemes Identifier.text .disjunction) text → newFunction text = e.shortCircuit fun _ => none

theorem written_residual (platform : Option Text) (e : Expr Identifier)
    (written : Written (e.lexemes Identifier.text .disjunction) text) :
    Written ((residual toLowerCase platform e).lexemes Identifier.text .disjunction)
      (normalise (substitute toLowerCase PLATFORMS platform text)) := by
  have foreign : ∀ b, truthText b ∉ PLATFORMS := by decide
  have renamed := lexemes_map Identifier.text (renameAll toLowerCase PLATFORMS platform)
    (rename_truth toLowerCase PLATFORMS foreign platform)
    (fun id => if Known id then .literal (platform.map toLowerCase == some (lowerCase id.text)) else .name id)
    (by
      intro id level
      rw [rename_known toLowerCase PLATFORMS foreign]
      by_cases known : Known id
      · rw [if_pos known,if_pos (show lowerCase id.text ∈ PLATFORMS from known)]
        rfl
      · rw [if_neg known,if_neg (show lowerCase id.text ∉ PLATFORMS from known)]
        rfl) e .disjunction
  obtain ⟨one,spelled⟩ := written_substitute toLowerCase PLATFORMS (by decide) platform written (spelled_expr e .disjunction)
  rw [renamed] at one spelled
  have two := (written_spaced (.inl rfl) one spelled).1
  exact (written_spaced (.inr rfl) two spelled).1

theorem safe_residual (e : Expr Identifier) (written : Written (e.lexemes Identifier.text .disjunction) text) :
    isSafe text = true ↔ ∀ id ∈ e.names, Unseen id := by
  have words := words_iff Identifier.text (fun letters => residue "true".toList "false".toList letters = []) (by decide)
    e .disjunction
  refine Iff.trans ?_ words
  refine written_residue (by decide) (by decide) (by decide) (by decide) _ (by decide) (every_char (by decide)) ?_ written
    (spelled_expr e .disjunction)
  intro c letter
  rw [Bool.eq_false_iff]
  intro found
  have member : c ∈ "!&|() ".toList := List.contains_iff_mem.mp found
  have other : ∀ c ∈ "!&|() ".toList, isWordChar c = false := every_char (by decide)
  rw [other c member] at letter
  cases letter

theorem residual_names (platform : Option Text) (e : Expr Identifier) (P : Identifier → Prop) :
    (∀ id ∈ (residual toLowerCase platform e).names, P id) ↔ ∀ id ∈ e.names, ¬Known id → P id := by
  rw [residual,names_map]
  constructor
  · intro all id member unknown
    apply all id
    rw [List.mem_flatMap]
    exact ⟨id,member,by rw [if_neg unknown]; simp [Expr.names]⟩
  · intro all id member
    obtain ⟨other,found,inside⟩ := List.mem_flatMap.mp member
    by_cases known : Known other
    · rw [if_pos known] at inside
      simp [Expr.names] at inside
    · rw [if_neg known] at inside
      obtain rfl : id = other := by simpa [Expr.names] using inside
      exact all id found known

theorem residual_value (platform : Option Text) (e : Expr Identifier) :
    (residual toLowerCase platform e).value (holds (platform.map toLowerCase)) = e.value (holds (platform.map toLowerCase)) := by
  rw [residual,value_map]
  congr 1
  funext id
  by_cases known : Known id
  · rw [if_pos known,Expr.value,holds]
    cases given : platform.map toLowerCase with
    | none => rfl
    | some p =>
      have some : lowerCase id.text ≠ [] := by
        intro empty
        have absent : [] ∉ PLATFORMS := by decide
        exact absent (empty ▸ known)
      by_cases same : p = lowerCase id.text
      · subst same
        simp [evaluateIdentifier,some]
      · have other : (lowerCase id.text == p) = false := beq_eq_false_iff_ne.mpr (Ne.symm same)
        have one : (Option.some p == Option.some (lowerCase id.text)) = false := by simpa using same
        rw [evaluateIdentifier,other,Bool.and_false,one]
  · rw [if_neg known]
    rfl

-- The textual evaluator gives the value or false.
theorem evaluateText_exact (newFunction : Text → Option Bool) (platform : Option Text) (e : Expr Identifier)
    (written : Written (e.lexemes Identifier.text .disjunction) condition)
    (runs : RunsAs newFunction (residual toLowerCase platform e)) :
    evaluateText newFunction toLowerCase PLATFORMS condition platform =
      (decide (∀ id ∈ e.names, ¬Known id → Unseen id) &&
        ((residual toLowerCase platform e).shortCircuit fun _ => none).getD false) := by
  obtain ⟨trimmed,some⟩ := written_condition e written
  have left := written_residual toLowerCase platform e trimmed
  have safe := (safe_residual _ left).trans (residual_names toLowerCase platform e Unseen)
  rw [evaluateText,if_neg some]
  by_cases unseen : ∀ id ∈ e.names, ¬Known id → Unseen id
  · have called := runs ((residual_names toLowerCase platform e Unseen).mpr unseen) _ left
    simp only [safe.mpr unseen,if_true,called,decide_eq_true unseen,Bool.true_and]
  · have refused : isSafe (normalise (substitute toLowerCase PLATFORMS platform (trim condition))) = false := by
      rw [Bool.eq_false_iff]
      exact fun allowed => unseen (safe.mp allowed)
    simp only [refused,Bool.false_eq_true,if_false,decide_eq_false unseen,Bool.false_and]

theorem shortCircuit_none (e : Expr ν) (given : ν → Bool) (result : e.shortCircuit (fun _ => none) = some truth) :
    e.value given = truth :=
  shortCircuit_value e result fun _ _ _ absurd => by cases absurd

-- The three evaluators agree exactly on the expressions that are false, and on
-- those whose evaluation neither shows nor reaches a name that is no platform.
theorem evaluators_agree_exact (newFunction : Text → Option Bool) (platform : Option Text) (e : Expr Identifier)
    (shallow : e.notDepth ≤ MAX_NOT_DEPTH) (written : Written (e.lexemes Identifier.text .disjunction) condition)
    (runs : RunsAs newFunction (residual toLowerCase platform e)) :
    (evaluateBooleanExpression toLowerCase condition platform =
        ConditionalEvaluator.evaluate newFunction toLowerCase condition platform ∧
      ConditionalEvaluator.evaluate newFunction toLowerCase condition platform =
        PlatformDownloader.evaluateCondition newFunction toLowerCase condition platform) ↔
    (e.value (holds (platform.map toLowerCase)) = false ∨
      ((∀ id ∈ e.names, ¬Known id → Unseen id) ∧
        (residual toLowerCase platform e).shortCircuit (fun _ => none) ≠ none)) := by
  have parser := evaluate_value toLowerCase platform e shallow written
  have textual := evaluateText_exact toLowerCase newFunction platform e written runs
  rw [ConditionalEvaluator.evaluate,PlatformDownloader.evaluateCondition,parser,textual]
  have value := residual_value toLowerCase platform e
  by_cases unseen : ∀ id ∈ e.names, ¬Known id → Unseen id
  · rw [decide_eq_true unseen,Bool.true_and]
    cases result : (residual toLowerCase platform e).shortCircuit fun _ => none with
    | none =>
      constructor
      · intro same; exact .inl same.1
      · intro condition
        rcases condition with isFalse | reached
        · exact ⟨isFalse,rfl⟩
        · exact absurd rfl reached.2
    | some truth =>
      rw [shortCircuit_none _ _ result] at value
      exact ⟨fun _ => .inr ⟨unseen,by simp⟩,fun _ => ⟨value.symm,rfl⟩⟩
  · rw [decide_eq_false unseen,Bool.false_and]
    constructor
    · intro same; exact .inl same.1
    · intro condition
      rcases condition with isFalse | reached
      · exact ⟨isFalse,rfl⟩
      · exact absurd reached.1 unseen

end Agreement

-- windows && !Mac, written with blanks, where the platform is Windows.
def windowsNotMac : Expr Identifier :=
  .and (.name (word "windows" (by decide) (by decide) (by decide) (by decide)))
    (.not (.name (word "Mac" (by decide) (by decide) (by decide) (by decide))))

theorem windowsNotMac_written :
    Written (windowsNotMac.lexemes Identifier.text .disjunction) " windows && !Mac ".toList :=
  .word 1 (.symbol 1 (by simp) (.symbol 1 (by simp) (.word 0 (.done 1) (by decide)))) (by decide)

theorem windowsNotMac_agree :
    (evaluateBooleanExpression lowerCase " windows && !Mac ".toList (some "Windows".toList) =
        ConditionalEvaluator.evaluate (fun _ => some true) lowerCase " windows && !Mac ".toList (some "Windows".toList) ∧
      ConditionalEvaluator.evaluate (fun _ => some true) lowerCase " windows && !Mac ".toList (some "Windows".toList) =
        PlatformDownloader.evaluateCondition (fun _ => some true) lowerCase " windows && !Mac ".toList
          (some "Windows".toList)) ↔
    (windowsNotMac.value (holds ((some "Windows".toList).map lowerCase)) = false ∨
      ((∀ id ∈ windowsNotMac.names, ¬Known id → Unseen id) ∧
        (residual lowerCase (some "Windows".toList) windowsNotMac).shortCircuit (fun _ => none) ≠ none)) :=
  evaluators_agree_exact lowerCase (fun _ => some true) (some "Windows".toList) windowsNotMac (by decide)
    windowsNotMac_written (fun _ _ _ => by rfl)

-- A negated name that is no platform: the parser takes the name as false, the
-- textual evaluators refuse the whole condition.
theorem negated_unknown_disagrees : ∃ (e : Expr Identifier) (condition : Text),
    e.notDepth ≤ MAX_NOT_DEPTH ∧ Written (e.lexemes Identifier.text .disjunction) condition ∧
    ∀ newFunction : Text → Option Bool,
      evaluateBooleanExpression lowerCase condition none ≠ ConditionalEvaluator.evaluate newFunction lowerCase condition none := by
  refine ⟨.not (.name (word "unknown" (by decide) (by decide) (by decide) (by decide))),"!unknown".toList,by decide,
    .symbol 0 (by simp) (.word 0 (.done 0) (by decide)),?_⟩
  intro newFunction
  have parser : evaluateBooleanExpression lowerCase "!unknown".toList none = true := by decide
  have textual : ConditionalEvaluator.evaluate newFunction lowerCase "!unknown".toList none = false := by
    have refused : isSafe (normalise (substitute lowerCase PLATFORMS none (trim "!unknown".toList))) = false := by
      decide +kernel
    rw [ConditionalEvaluator.evaluate,evaluateText,if_neg (by decide)]
    simp only [refused,Bool.false_eq_true,if_false]
  rw [parser,textual]
  decide

end AdblockCompiler.Conditions
