import AdblockCompiler.Header
import AdblockCompiler.Globs
import AdblockCompiler.Rules

namespace AdblockCompiler.Pipeline
open JsText Rules Config Globs

inductive ErrorKind where
  | source | configuration | compilation | other
  deriving DecidableEq, Repr

structure Failure where
  kind : ErrorKind
  message : Text
  deriving DecidableEq, Repr

def sourceDownloadError (source : Text) (cause : Thrown) : Failure :=
  ⟨.source,"Failed to download source ".toList ++ source ++ ": ".toList ++ cause⟩

def includes (text part : Text) : Bool := text.tails.any (startsWith · part)

-- regex is none for a plain pattern.
structure Wildcard where
  plainStr : Text
  regex : Option (Text → Bool)

def Wildcard.isPlain (w : Wildcard) : Bool := w.regex.isNone

def Wildcard.test (w : Wildcard) (str : Text) : Bool :=
  match w.regex with
  | some regex => regex str
  | none => includes str w.plainStr

-- What the patterns are matched and the lists fetched with: regExp is the
-- constructor with the flags mi and the test of what it builds, canonicalize
-- the folding of the flag i, download a FilterDownloader's.
structure FilterService where
  regExp : Text → Except Thrown (Text → Bool)
  canonicalize : Char → Char
  parser : RuleParser
  download : Text → Except Thrown (List Text)

section Wildcards
variable (s : FilterService)

-- split(/\*+/) joined by [\s\S]*: a run of stars is one piece.
def globPieces : Text → List (Piece Char)
  | [] => []
  | '*' :: '*' :: rest => globPieces ('*' :: rest)
  | '*' :: rest => .any :: globPieces rest
  | c :: rest => .letter (s.canonicalize c) :: globPieces rest

def globTest (pattern str : Text) : Bool :=
  meets (fun _ => false) List.isEmpty (globPieces s pattern) (str.map s.canonicalize)

def newWildcard (pattern : Text) : Except Thrown Wildcard :=
  if pattern = [] then .error "Wildcard cannot be empty".toList
  else if startsWith pattern ['/'] && endsWith pattern ['/'] && 2 < pattern.length then
    (s.regExp (pattern.drop 1).dropLast).map fun regex => ⟨pattern,some regex⟩
  else if '*' ∈ pattern then .ok ⟨pattern,some (globTest s pattern)⟩
  else .ok ⟨pattern,none⟩

def downloadList (source : Text) : Except Failure (List Text) :=
  match s.download source with
  | .ok rulesStr => .ok (rulesStr.filter fun el => 0 < (trim el).length && !isComment s.parser el)
  | .error thrown => .error (sourceDownloadError source thrown)

def downloadAll (sources : List Text) : Except Failure (List Text) := (sources.mapM (downloadList s)).map List.flatten

def prepareWildcards (rules sources : Option (List Text)) : Except Failure (List Wildcard) := do
  let downloadedList ← if sources.getD [] = [] then .ok [] else downloadAll s (sources.getD [])
  let uniqueRules := (rules.getD [] ++ downloadedList).eraseDups.filter (· ≠ [])
  (uniqueRules.mapM (newWildcard s)).mapError (⟨.other,·⟩)

end Wildcards

inductive FilterMode where
  | exclude | include
  deriving DecidableEq

-- The combined expression of the plain patterns first, then the others.
def matchesPattern (wildcards : List Wildcard) (rule : Text) : Bool :=
  let plainPatterns := (wildcards.filter (·.isPlain)).map Wildcard.plainStr
  let regexWildcards := wildcards.filter fun w => !w.isPlain
  plainPatterns.any (includes rule) || regexWildcards.any (·.test rule)

def requestOrder : List TransformationType :=
  [.ConvertToAscii,.TrimLines,.RemoveComments,.Compress,.RemoveModifiers,.InvertAllow,.Validate,.ValidateAllowIp,
    .Deduplicate,.ConflictDetection,.RuleOptimizer,.RemoveEmptyLines,.InsertFinalNewLine]

def getOrderedTransformations (requested : List TransformationType) : List TransformationType :=
  requestOrder.filter (· ∈ requested)

-- No registered transformation reads the configuration that execute is given.
abbrev TransformationRegistry := TransformationType → Option (List Text → Except Thrown (List Text))

structure TransformationPipeline where
  filterService : FilterService
  registry : TransformationRegistry

section Transform
variable (pipeline : TransformationPipeline)

def applyPatternFilter (rules : List Text) (patterns patternSources : Option (List Text)) (mode : FilterMode) :
    Except Failure (List Text) :=
  if patterns.getD [] = [] ∧ patternSources.getD [] = [] then .ok rules
  else
    (prepareWildcards pipeline.filterService patterns patternSources).map fun wildcards =>
      if wildcards.isEmpty then rules
      else
        match mode with
        | .exclude => rules.filter fun rule => !matchesPattern wildcards rule
        | .include => rules.filter (matchesPattern wildcards)

def applyExclusions (rules : List Text) (configuration : Filterable) : Except Failure (List Text) :=
  applyPatternFilter pipeline rules configuration.exclusions configuration.exclusions_sources .exclude

def applyInclusions (rules : List Text) (configuration : Filterable) : Except Failure (List Text) :=
  applyPatternFilter pipeline rules configuration.inclusions configuration.inclusions_sources .include

def applyTransformations : List TransformationType → List Text → Except Failure (List Text)
  | [],transformed => .ok transformed
  | type :: rest,transformed =>
    match pipeline.registry type with
    | none => applyTransformations rest transformed
    | some transformation =>
      match transformation transformed with
      | .error thrown => .error ⟨.other,thrown⟩
      | .ok result => applyTransformations rest result

-- The lines that the requested transformations are given.
def filterRules (rules : List Text) (configuration : Filterable) : Except Failure (List Text) :=
  (applyExclusions pipeline rules configuration).bind fun transformed => applyInclusions pipeline transformed configuration

def transform (rules : List Text) (configuration : Filterable) (transformations : List TransformationType) :
    Except Failure (List Text) :=
  (filterRules pipeline rules configuration).bind
    (applyTransformations pipeline (getOrderedTransformations transformations))

end Transform

-- The patterns of a filter and the lines it lets pass: none of the excluded,
-- and only included ones where there are inclusions.
structure Patterns where
  exclusions : List Wildcard
  inclusions : List Wildcard

def Matched (wildcards : List Wildcard) (rule : Text) : Prop := ∃ w ∈ wildcards, w.test rule = true

def Patterns.Respects (patterns : Patterns) (rule : Text) : Prop :=
  ¬ Matched patterns.exclusions rule ∧ (patterns.inclusions ≠ [] → Matched patterns.inclusions rule)

def Prepares (s : FilterService) (configuration : Filterable) (patterns : Patterns) : Prop :=
  prepareWildcards s configuration.exclusions configuration.exclusions_sources = .ok patterns.exclusions ∧
    prepareWildcards s configuration.inclusions configuration.inclusions_sources = .ok patterns.inclusions

section Filtering

theorem matchesPattern_exact (wildcards : List Wildcard) (rule : Text) :
    matchesPattern wildcards rule = true ↔ Matched wildcards rule := by
  rw [matchesPattern,Bool.or_eq_true,List.any_eq_true,List.any_eq_true]
  constructor
  · rintro (⟨part,member,found⟩ | ⟨w,member,found⟩)
    · obtain ⟨w,inside,rfl⟩ := List.mem_map.mp member
      obtain ⟨listed,plain⟩ := List.mem_filter.mp inside
      refine ⟨w,listed,?_⟩
      rw [Wildcard.test,Option.isNone_iff_eq_none.mp plain]
      exact found
    · exact ⟨w,List.mem_of_mem_filter member,found⟩
  · intro given
    obtain ⟨w,listed,found⟩ := given
    cases shape : w.regex with
    | none =>
      left
      have plain : w.isPlain = true := Option.isNone_iff_eq_none.mpr shape
      refine ⟨w.plainStr,List.mem_map_of_mem (List.mem_filter.mpr ⟨listed,plain⟩),?_⟩
      rw [Wildcard.test,shape] at found
      exact found
    | some regex =>
      right
      have other : w.isPlain = false := by rw [Wildcard.isPlain,shape]; rfl
      exact ⟨w,List.mem_filter.mpr ⟨listed,by rw [other]; rfl⟩,found⟩

variable (pipeline : TransformationPipeline)

theorem prepare_nothing (s : FilterService) (rules sources : Option (List Text)) (none_ : rules.getD [] = []) (empty : sources.getD [] = []) :
    prepareWildcards s rules sources = .ok [] := by
  rw [prepareWildcards,none_,if_pos empty]
  rfl

def passes (mode : FilterMode) (wildcards : List Wildcard) (rule : Text) : Bool :=
  match mode with
  | .exclude => !matchesPattern wildcards rule
  | .include => wildcards.isEmpty || matchesPattern wildcards rule

theorem patternFilter_exact (rules : List Text) (patterns sources : Option (List Text)) (mode : FilterMode) :
    applyPatternFilter pipeline rules patterns sources mode =
      (prepareWildcards pipeline.filterService patterns sources).map fun wildcards => rules.filter (passes mode wildcards) := by
  have nothing : rules.filter (passes mode []) = rules := by
    apply List.filter_eq_self.mpr
    intro rule _
    cases mode <;> rfl
  unfold applyPatternFilter
  split
  · next both =>
    rw [prepare_nothing _ _ _ both.1 both.2,Except.map,nothing]
  · congr 1
    funext wildcards
    cases wildcards with
    | nil => exact nothing.symm
    | cons w rest => cases mode <;> rfl

theorem filterRules_exact (prepared : Prepares pipeline.filterService configuration patterns) (rules : List Text) :
    ∃ kept, filterRules pipeline rules configuration = .ok kept ∧ kept.Sublist rules ∧
      ∀ rule, rule ∈ kept ↔ rule ∈ rules ∧ patterns.Respects rule := by
  have exclusions : applyExclusions pipeline rules configuration =
      .ok (rules.filter (passes .exclude patterns.exclusions)) := by
    rw [applyExclusions,patternFilter_exact,prepared.1]
    rfl
  have inclusions (left : List Text) : applyInclusions pipeline left configuration =
      .ok (left.filter (passes .include patterns.inclusions)) := by
    rw [applyInclusions,patternFilter_exact,prepared.2]
    rfl
  refine ⟨_,by rw [filterRules,exclusions]; exact inclusions _,?_,?_⟩
  · exact List.filter_sublist.trans List.filter_sublist
  · intro rule
    have included : passes .include patterns.inclusions rule = true ↔
        (patterns.inclusions ≠ [] → Matched patterns.inclusions rule) := by
      rw [passes,Bool.or_eq_true,List.isEmpty_iff,matchesPattern_exact]
      exact Decidable.or_iff_not_imp_left
    have excluded : passes .exclude patterns.exclusions rule = true ↔ ¬ Matched patterns.exclusions rule := by
      rw [passes,← matchesPattern_exact,Bool.not_eq_true',Bool.not_eq_true]
    rw [List.mem_filter,List.mem_filter,included,excluded,and_assoc]
    rfl

-- Nothing is kept where the patterns of a filter cannot be prepared.
theorem filterRules_prepared (filtered : filterRules pipeline rules configuration = .ok kept) :
    ∃ patterns, Prepares pipeline.filterService configuration patterns := by
  rw [filterRules,applyExclusions,patternFilter_exact] at filtered
  cases exclusions : prepareWildcards pipeline.filterService configuration.exclusions configuration.exclusions_sources with
  | error failure =>
    rw [exclusions] at filtered
    cases filtered
  | ok E =>
    rw [exclusions] at filtered
    simp only [Except.map,Except.bind,applyInclusions,patternFilter_exact] at filtered
    cases inclusions : prepareWildcards pipeline.filterService configuration.inclusions configuration.inclusions_sources with
    | error failure =>
      rw [inclusions] at filtered
      cases filtered
    | ok I => exact ⟨⟨E,I⟩,exclusions,inclusions⟩

end Filtering

end AdblockCompiler.Pipeline
