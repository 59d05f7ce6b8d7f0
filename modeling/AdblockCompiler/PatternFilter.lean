import AdblockCompiler.Pipeline
import AdblockCompiler.RegExps

-- The three writings of the pattern filter: the pipeline's, with one combined
-- expression for all plain patterns, and the two transformations of old.
namespace AdblockCompiler.PatternFilter
open JsText Config Pipeline RegExps

-- p.replace(/[.*+?^${}()|[\]\\]/g, '\\$&')
def metacharacters : Text := ['.','*','+','?','^','$','{','}','(',')','|','[',']','\\']

def escaped (p : Text) : Text := p.flatMap fun c => if metacharacters.contains c then ['\\',c] else [c]

def combinedSource (plainPatterns : List Text) : Text :=
  ['(','?',':'] ++ RegExps.join (plainPatterns.map escaped) ++ [')']

-- The constructor without flags, on a source of the forms that are read here.
def newRegExp (source : Text) : Except Thrown Node :=
  match parse source with
  | some node => .ok node
  | none => .error "Invalid regular expression".toList

def combinedPlainRegex (plainPatterns : List Text) : Except Thrown (Option Node) :=
  if 0 < plainPatterns.length then (newRegExp (combinedSource plainPatterns)).map some else .ok none

def matchesPattern (combined : Option Node) (regexWildcards : List Wildcard) (rule : Text) : Bool :=
  combined.any (·.test rule) || regexWildcards.any (·.test rule)

def filterRules (rules : List Text) (wildcards : List Wildcard) (mode : FilterMode) : Except Failure (List Text) :=
  let plainPatterns := (wildcards.filter (·.isPlain)).map Wildcard.plainStr
  let regexWildcards := wildcards.filter fun w => !w.isPlain
  match combinedPlainRegex plainPatterns with
  | .error thrown => .error ⟨.other,thrown⟩
  | .ok combined =>
    match mode with
    | .exclude => .ok (rules.filter fun rule => !matchesPattern combined regexWildcards rule)
    | .include => .ok (rules.filter (matchesPattern combined regexWildcards))

def applyPatternFilter (s : FilterService) (rules : List Text) (patterns patternSources : Option (List Text))
    (mode : FilterMode) : Except Failure (List Text) :=
  if patterns.getD [] = [] ∧ patternSources.getD [] = [] then .ok rules
  else
    (prepareWildcards s patterns patternSources).bind fun wildcards =>
      if wildcards.length = 0 then .ok rules else filterRules rules wildcards mode

namespace ExcludeTransformation

def excludeWithWildcards (rules : List Text) (wildcards : List Wildcard) : List Text :=
  if wildcards.length = 0 then rules else rules.filter fun rule => !wildcards.any (·.test rule)

def execute (s : FilterService) (rules : List Text) (configuration : Filterable) : Except Failure (List Text) :=
  if configuration.exclusions.getD [] = [] ∧ configuration.exclusions_sources.getD [] = [] then .ok rules
  else
    (prepareWildcards s configuration.exclusions configuration.exclusions_sources).map fun wildcards =>
      if wildcards.length = 0 then rules
      else
        rules.filter fun rule =>
          let excluded := wildcards.any (·.test rule)
          !excluded

end ExcludeTransformation

namespace IncludeTransformation

-- Nothing at all is included where no pattern is given.
def includeWithWildcards (rules : List Text) (wildcards : List Wildcard) : List Text :=
  if wildcards.length = 0 then [] else rules.filter fun rule => wildcards.any (·.test rule)

def execute (s : FilterService) (rules : List Text) (configuration : Filterable) : Except Failure (List Text) :=
  if configuration.inclusions.getD [] = [] ∧ configuration.inclusions_sources.getD [] = [] then .ok rules
  else
    (prepareWildcards s configuration.inclusions configuration.inclusions_sources).map fun wildcards =>
      if wildcards.length = 0 then rules else rules.filter fun rule => wildcards.any (·.test rule)

end IncludeTransformation

section Combined

theorem escaped_escape (p : Text) : escaped p = escape p := by
  have perm : metacharacters.Perm syntaxCharacters := by decide
  have same (c : Char) : metacharacters.contains c = isSyntax c := by
    rw [isSyntax,Bool.eq_iff_iff,List.contains_iff_mem,List.contains_iff_mem]
    exact perm.mem_iff
  rw [escaped,escape]
  congr 1
  funext c
  rw [same]

theorem combined_alternation (plainPatterns : List Text) : combinedSource plainPatterns = alternation plainPatterns := by
  rw [combinedSource,alternation,List.map_congr_left fun p _ => escaped_escape p]

theorem includes_exact : includes text part = true ↔ ∃ front tail, text = front ++ part ++ tail := by
  rw [includes,List.any_eq_true]
  constructor
  · rintro ⟨rest,suffix,starts⟩
    obtain ⟨tail,rfl⟩ := startsWith_iff.mp starts
    obtain ⟨front,rfl⟩ := (List.mem_tails _ _).mp suffix
    exact ⟨front,tail,(List.append_assoc _ _ _).symm⟩
  · rintro ⟨front,tail,rfl⟩
    refine ⟨part ++ tail,(List.mem_tails _ _).mpr ⟨front,(List.append_assoc _ _ _).symm⟩,startsWith_append part tail⟩

-- The constructor takes every combined source, and what it builds looks for
-- the plain patterns themselves.
theorem combined_exact (plainPatterns : List Text) :
    ∃ combined, combinedPlainRegex plainPatterns = .ok combined ∧
      ∀ rule, combined.any (·.test rule) = plainPatterns.any (includes rule) := by
  rw [combinedPlainRegex]
  cases plainPatterns with
  | nil => exact ⟨none,rfl,fun _ => rfl⟩
  | cons p rest =>
    obtain ⟨node,parsed,finds⟩ := alternation_exact (List.cons_ne_nil p rest)
    refine ⟨some node,?_,fun rule => ?_⟩
    · have some_ : 0 < (p :: rest).length := Nat.succ_pos _
      rw [if_pos some_,newRegExp,combined_alternation,parsed]
      rfl
    · rw [Option.any_some,Bool.eq_iff_iff,finds,List.any_eq_true]
      simp only [includes_exact]

theorem matches_any (wildcards : List Wildcard) :
    Pipeline.matchesPattern wildcards = fun rule => wildcards.any (·.test rule) := by
  funext rule
  rw [Bool.eq_iff_iff,matchesPattern_exact,List.any_eq_true]
  rfl

theorem filterRules_any (rules : List Text) (wildcards : List Wildcard) (mode : FilterMode) :
    filterRules rules wildcards mode =
      match mode with
      | .exclude => .ok (rules.filter fun rule => !wildcards.any (·.test rule))
      | .include => .ok (rules.filter fun rule => wildcards.any (·.test rule)) := by
  obtain ⟨combined,built,finds⟩ := combined_exact ((wildcards.filter (·.isPlain)).map Wildcard.plainStr)
  have found : matchesPattern combined (wildcards.filter fun w => !w.isPlain) = fun rule => wildcards.any (·.test rule) := by
    rw [← matches_any]
    funext rule
    rw [matchesPattern,finds]
    rfl
  rw [filterRules]
  simp only [built,found]

-- The pipeline of the compiler model filters as the code does.
theorem pipeline_filter (pipeline : TransformationPipeline) (rules : List Text) (patterns patternSources : Option (List Text))
    (mode : FilterMode) :
    Pipeline.applyPatternFilter pipeline rules patterns patternSources mode =
      applyPatternFilter pipeline.filterService rules patterns patternSources mode := by
  rw [Pipeline.applyPatternFilter,applyPatternFilter]
  congr 1
  cases prepareWildcards pipeline.filterService patterns patternSources with
  | error failure => rfl
  | ok wildcards =>
    simp only [Except.map,Except.bind,filterRules_any,matches_any,List.isEmpty_iff,List.length_eq_zero_iff]
    split
    · rfl
    · cases mode <;> rfl

end Combined

section Agreement
variable (s : FilterService) (rules : List Text)

def unmatched (wildcards : List Wildcard) : List Text := rules.filter fun rule => !wildcards.any (·.test rule)
def matched (wildcards : List Wildcard) : List Text := rules.filter fun rule => wildcards.any (·.test rule)

theorem unmatched_nil : unmatched rules [] = rules := List.filter_eq_self.mpr fun _ _ => rfl

theorem applyPatternFilter_exclude (patterns patternSources : Option (List Text)) :
    applyPatternFilter s rules patterns patternSources .exclude =
      (prepareWildcards s patterns patternSources).map (unmatched rules) := by
  rw [applyPatternFilter]
  split
  · next both =>
    rw [prepare_nothing s _ _ both.1 both.2,Except.map,unmatched_nil]
  · cases prepareWildcards s patterns patternSources with
    | error failure => rfl
    | ok wildcards =>
      rw [Except.bind,Except.map,filterRules_any]
      split
      · next empty =>
        rw [List.length_eq_zero_iff.mp empty,unmatched_nil]
      · rfl

theorem applyPatternFilter_include (patterns patternSources : Option (List Text)) :
    applyPatternFilter s rules patterns patternSources .include =
      (prepareWildcards s patterns patternSources).map fun wildcards =>
        if wildcards = [] then rules else matched rules wildcards := by
  rw [applyPatternFilter]
  split
  · next both =>
    rw [prepare_nothing s _ _ both.1 both.2]
    rfl
  · cases prepareWildcards s patterns patternSources with
    | error failure => rfl
    | ok wildcards =>
      rw [Except.bind,Except.map,filterRules_any]
      simp only [List.length_eq_zero_iff]
      split <;> rfl

theorem excludeTransformation_exact (configuration : Filterable) :
    ExcludeTransformation.execute s rules configuration =
      applyPatternFilter s rules configuration.exclusions configuration.exclusions_sources .exclude := by
  rw [applyPatternFilter,ExcludeTransformation.execute]
  congr 1
  cases prepareWildcards s configuration.exclusions configuration.exclusions_sources with
  | error failure => rfl
  | ok wildcards =>
    rw [Except.bind,Except.map,filterRules_any]
    split <;> rfl

theorem includeTransformation_exact (configuration : Filterable) :
    IncludeTransformation.execute s rules configuration =
      applyPatternFilter s rules configuration.inclusions configuration.inclusions_sources .include := by
  rw [applyPatternFilter,IncludeTransformation.execute]
  congr 1
  cases prepareWildcards s configuration.inclusions configuration.inclusions_sources with
  | error failure => rfl
  | ok wildcards =>
    rw [Except.bind,Except.map,filterRules_any]
    split <;> rfl

theorem parts_whole (wildcards : List Wildcard) : (unmatched rules wildcards ++ matched rules wildcards).Perm rules := by
  have parted := List.filter_append_perm (fun rule => wildcards.any fun w => w.test rule) rules
  exact (List.perm_append_comm).trans parted

-- One list for each mode, whoever writes it; and with patterns to match, the
-- two modes part the rules between them.
theorem filters_agree (configuration : Filterable) (patterns patternSources : Option (List Text)) :
    (applyPatternFilter s rules patterns patternSources .exclude =
      (prepareWildcards s patterns patternSources).map (unmatched rules)) ∧
    (applyPatternFilter s rules patterns patternSources .include =
      (prepareWildcards s patterns patternSources).map fun wildcards =>
        if wildcards = [] then rules else matched rules wildcards) ∧
    (ExcludeTransformation.execute s rules configuration =
      applyPatternFilter s rules configuration.exclusions configuration.exclusions_sources .exclude) ∧
    (IncludeTransformation.execute s rules configuration =
      applyPatternFilter s rules configuration.inclusions configuration.inclusions_sources .include) ∧
    ∀ wildcards, prepareWildcards s patterns patternSources = .ok wildcards → wildcards ≠ [] →
      ∃ excluding including, applyPatternFilter s rules patterns patternSources .exclude = .ok excluding ∧
        applyPatternFilter s rules patterns patternSources .include = .ok including ∧
        ExcludeTransformation.excludeWithWildcards rules wildcards = excluding ∧
        IncludeTransformation.includeWithWildcards rules wildcards = including ∧
        excluding.Sublist rules ∧ including.Sublist rules ∧ (excluding ++ including).Perm rules := by
  refine ⟨applyPatternFilter_exclude s rules _ _,applyPatternFilter_include s rules _ _,
    excludeTransformation_exact s rules configuration,includeTransformation_exact s rules configuration,?_⟩
  intro wildcards prepared some_
  have many : wildcards.length ≠ 0 := fun none_ => some_ (List.length_eq_zero_iff.mp none_)
  refine ⟨unmatched rules wildcards,matched rules wildcards,?_,?_,if_neg many,if_neg many,List.filter_sublist,
    List.filter_sublist,parts_whole rules wildcards⟩
  · rw [applyPatternFilter_exclude,prepared]
    rfl
  · rw [applyPatternFilter_include,prepared]
    exact congrArg Except.ok (if_neg some_)

end Agreement

def plainService : FilterService where
  regExp := fun _ => .error "Invalid regular expression".toList
  canonicalize := Char.toUpper
  parser := Rules.basicParser
  download := fun _ => .error "HTTP 404: Not Found".toList

-- A dot is no wild card in the combined expression.
theorem dotted_parted :
    ∃ excluding including,
      applyPatternFilter plainService ["a.b|c".toList,"aab|c".toList] (some ["a.b".toList,"|d".toList]) none .exclude =
        .ok excluding ∧
      applyPatternFilter plainService ["a.b|c".toList,"aab|c".toList] (some ["a.b".toList,"|d".toList]) none .include =
        .ok including ∧
      ExcludeTransformation.excludeWithWildcards ["a.b|c".toList,"aab|c".toList] [⟨"a.b".toList,none⟩,⟨"|d".toList,none⟩] =
        excluding ∧
      IncludeTransformation.includeWithWildcards ["a.b|c".toList,"aab|c".toList] [⟨"a.b".toList,none⟩,⟨"|d".toList,none⟩] =
        including ∧
      excluding.Sublist ["a.b|c".toList,"aab|c".toList] ∧ including.Sublist ["a.b|c".toList,"aab|c".toList] ∧
      (excluding ++ including).Perm ["a.b|c".toList,"aab|c".toList] :=
  (filters_agree plainService ["a.b|c".toList,"aab|c".toList] {} (some ["a.b".toList,"|d".toList]) none).2.2.2.2
    [⟨"a.b".toList,none⟩,⟨"|d".toList,none⟩] rfl (List.cons_ne_nil _ _)

example : combinedSource ["a.b".toList,"|d".toList] = "(?:a\\.b|\\|d)".toList := by decide

end AdblockCompiler.PatternFilter
