import AdblockCompiler.PatternFilter

-- The filter that stands beside the pipeline's: patterns that cannot be prepared
-- are warned of, and the rules go on as they were.
namespace AdblockCompiler.RuleFilter
open JsText Config Pipeline PatternFilter

inductive Mode where
  | exclusion | inclusion

def ruleMatches (rule : Text) (plainPatterns : List Text) (regexWildcards : List Wildcard) : Bool :=
  plainPatterns.any (includes rule) || regexWildcards.any (·.test rule)

def filterRules (rules : List Text) (wildcards : List Wildcard) (mode : Mode) : List Text :=
  let plainPatterns := (wildcards.filter (·.isPlain)).map Wildcard.plainStr
  let regexWildcards := wildcards.filter fun w => !w.isPlain
  rules.filter fun rule =>
    let isMatch := ruleMatches rule plainPatterns regexWildcards
    match mode with
    | .exclusion => !isMatch
    | .inclusion => isMatch

section Filter
variable (s : FilterService)

def applyPatterns (rules : List Text) (patterns patternSources : Option (List Text)) (mode : Mode) : List Text :=
  if patterns.getD [] = [] ∧ patternSources.getD [] = [] then rules
  else
    match prepareWildcards s patterns patternSources with
    | .error _ => rules
    | .ok wildcards => if wildcards.length = 0 then rules else filterRules rules wildcards mode

def applyExclusions (rules : List Text) (filterable : Filterable) : List Text :=
  applyPatterns s rules filterable.exclusions filterable.exclusions_sources .exclusion

def applyInclusions (rules : List Text) (filterable : Filterable) : List Text :=
  applyPatterns s rules filterable.inclusions filterable.inclusions_sources .inclusion

-- The patterns of a list, and none where one of them cannot be prepared.
def usable (patterns patternSources : Option (List Text)) : List Wildcard := (prepareWildcards s patterns patternSources).toOption.getD []

def Mode.passes : Mode → List Wildcard → Text → Bool
  | .exclusion => Pipeline.passes .exclude
  | .inclusion => Pipeline.passes .include

theorem filterRules_passes (rules : List Text) {wildcards : List Wildcard} (some_ : wildcards ≠ []) (mode : Mode) :
    filterRules rules wildcards mode = rules.filter (mode.passes wildcards) := by
  have many : wildcards.isEmpty = false := by simpa using some_
  refine List.filter_congr ?_
  intro rule _
  cases mode with
  | exclusion => rfl
  | inclusion =>
    rw [Mode.passes,passes,many,Bool.false_or]
    rfl

theorem passes_none (mode : Mode) (rules : List Text) : rules.filter (mode.passes []) = rules := by
  refine List.filter_eq_self.mpr ?_
  intro rule _
  cases mode <;> rfl

theorem applyPatterns_usable (rules : List Text) (patterns patternSources : Option (List Text)) (mode : Mode) :
    applyPatterns s rules patterns patternSources mode = rules.filter (mode.passes (usable s patterns patternSources)) := by
  rw [applyPatterns,usable]
  split
  · next both =>
    rw [prepare_nothing s _ _ both.1 both.2]
    exact (passes_none mode rules).symm
  · cases prepareWildcards s patterns patternSources with
    | error failure => exact (passes_none mode rules).symm
    | ok wildcards =>
      by_cases none_ : wildcards = []
      · subst none_
        exact (passes_none mode rules).symm
      · have many : wildcards.length ≠ 0 := fun zero => none_ (List.length_eq_zero_iff.mp zero)
        simp only [many,if_false]
        exact filterRules_passes rules none_ mode

def usablePatterns (filterable : Filterable) : Patterns :=
  ⟨usable s filterable.exclusions filterable.exclusions_sources,usable s filterable.inclusions filterable.inclusions_sources⟩

theorem passes_respects (patterns : Patterns) (rule : Text) :
    passes .exclude patterns.exclusions rule = true ∧ passes .include patterns.inclusions rule = true ↔ patterns.Respects rule := by
  have included : passes .include patterns.inclusions rule = true ↔ (patterns.inclusions ≠ [] → Matched patterns.inclusions rule) := by
    rw [passes,Bool.or_eq_true,List.isEmpty_iff,matchesPattern_exact]
    exact Decidable.or_iff_not_imp_left
  have excluded : passes .exclude patterns.exclusions rule = true ↔ ¬ Matched patterns.exclusions rule := by
    rw [passes,← matchesPattern_exact,Bool.not_eq_true',Bool.not_eq_true]
  rw [included,excluded]
  exact Iff.rfl

-- What the pipeline's filter leaves where it does not fail.
theorem pipeline_left (registry : TransformationRegistry) (filtered : Pipeline.filterRules ⟨s,registry⟩ rules filterable = .ok kept) :
    kept = (rules.filter (passes .exclude (usablePatterns s filterable).exclusions)).filter (passes .include (usablePatterns s filterable).inclusions) := by
  obtain ⟨patterns,exclusions,inclusions⟩ := filterRules_prepared ⟨s,registry⟩ filtered
  simp only [Pipeline.filterRules,Pipeline.applyExclusions,Pipeline.applyInclusions,patternFilter_exact] at filtered
  simp only [usablePatterns,usable]
  rw [exclusions,inclusions] at filtered ⊢
  exact (Except.ok.inj filtered).symm

instance (patterns : Patterns) (rule : Text) : Decidable (patterns.Respects rule) := decidable_of_iff _ (passes_respects patterns rule)

-- What is left of the rules are, in order and as often as they are there, those
-- that respect the patterns of the lists that could be prepared; and where the
-- pipeline's filter does not fail, it leaves the same.
theorem filter_open (rules : List Text) (filterable : Filterable) :
    applyInclusions s (applyExclusions s rules filterable) filterable =
        rules.filter (fun rule => (usablePatterns s filterable).Respects rule) ∧
      ∀ registry kept, Pipeline.filterRules ⟨s,registry⟩ rules filterable = .ok kept →
        applyInclusions s (applyExclusions s rules filterable) filterable = kept := by
  have chain : applyInclusions s (applyExclusions s rules filterable) filterable =
      (rules.filter (passes .exclude (usablePatterns s filterable).exclusions)).filter (passes .include (usablePatterns s filterable).inclusions) := by
    rw [applyInclusions,applyExclusions,applyPatterns_usable,applyPatterns_usable]
    rfl
  constructor
  · rw [chain,List.filter_filter]
    refine List.filter_congr ?_
    intro rule _
    rw [Bool.eq_iff_iff,Bool.and_eq_true,and_comm,passes_respects,decide_eq_true_eq]
  · intro registry kept filtered
    rw [chain,pipeline_left s registry filtered]

end Filter

end AdblockCompiler.RuleFilter
