import AdblockCompiler.Merging
import AdblockCompiler.RuleUniqueness
import AdblockCompiler.Validation

-- The registered transformations with the fields that they write, which every
-- use of one registry shares.
namespace AdblockCompiler.SharedRegistry
open JsText Rules Config Pipeline Conflicts Merging Validation

structure OptimizationStats where
  rulesOptimized : Nat := 0
  redundantRemoved : Nat := 0
  rulesMerged : Nat := 0
  modifiersSimplified : Nat := 0
  originalCount : Nat := 0
  finalCount : Nat := 0
  sizeReduction : Rat := 0
  deriving DecidableEq, Repr

section RuleOptimizer
variable (parser : RuleParser) (options : RuleOptimizerOptions)

def redundantRemoved (rules : List Text) : Nat :=
  let scan := rules.zipIdx.foldl (Optimizer.Scan.visit parser) {}
  scan.domainRules.countP fun entry => (Optimizer.parentDomains entry.1).any scan.has

def rulesOptimized (rule : Text) : Nat :=
  let trimmed := trim rule
  if Optimizer.skipped trimmed then 0
  else
    let slashless := Optimizer.slashToCaret trimmed
    let starless := Optimizer.dropLeadingStar slashless
    [Optimizer.endsInSlash trimmed,startsWith slashless ['|','|','*'],endsWith starless ['*','^']].count true

def typeModifiers : List Text := ["script","image","stylesheet","font","xmlhttprequest","media"].map String.toList

-- The duplicates of a rule, and one where all types but one are negated.
def modifiersSimplified (rule : Text) : Nat :=
  let trimmed := trim rule
  if Optimizer.skipped trimmed then 0
  else if '$' ∉ trimmed then 0
  else
    let options := (loadAdblockRuleProperties parser trimmed).options.getD []
    if options = [] then 0
    else
      let uniqueOptions := Optimizer.firstOfKey optionText [] options
      let types := uniqueOptions.filter fun opt => replaceFirst opt.name ['~'] ∈ typeModifiers
      let negatedCount := types.countP fun opt => startsWith opt.name ['~']
      options.length-uniqueOptions.length + if negatedCount = 5 ∧ types.length = negatedCount then 1 else 0

def rulesMerged (rules : List Text) : Nat :=
  let groups := rules.zipIdx.foldl (visit parser) []
  ((groups.filter fun group => group.domains.length ≥ options.mergeThreshold).map fun group => group.indices.length-1).sum

def RuleOptimizer.removeRedundantRules (state : OptimizationStats × List Text) : OptimizationStats × List Text :=
  ({ state.1 with redundantRemoved := state.1.redundantRemoved + redundantRemoved parser state.2 },
    Optimizer.removeRedundantRules parser state.2)

def RuleOptimizer.optimizePatterns (state : OptimizationStats × List Text) : OptimizationStats × List Text :=
  ({ state.1 with rulesOptimized := state.1.rulesOptimized + (state.2.map rulesOptimized).sum },Optimizer.optimizePatterns state.2)

def RuleOptimizer.simplifyModifiers (state : OptimizationStats × List Text) : OptimizationStats × List Text :=
  ({ state.1 with modifiersSimplified := state.1.modifiersSimplified + (state.2.map (modifiersSimplified parser)).sum },
    Optimizer.simplifyModifiers parser state.2)

def RuleOptimizer.mergeSimilarRules (state : OptimizationStats × List Text) : OptimizationStats × List Text :=
  ({ state.1 with rulesMerged := state.1.rulesMerged + rulesMerged parser options state.2 },
    Merging.mergeSimilarRules parser options.mergeThreshold state.2)

def RuleOptimizer.executeSync (_this : OptimizationStats) (rules : List Text) : OptimizationStats × List Text :=
  let state : OptimizationStats × List Text := ({ originalCount := rules.length },rules)
  let state := if options.removeRedundant then RuleOptimizer.removeRedundantRules parser state else state
  let state := if options.optimizePatterns then RuleOptimizer.optimizePatterns state else state
  let state := if options.simplifyModifiers then RuleOptimizer.simplifyModifiers parser state else state
  let state := if options.mergeRules then RuleOptimizer.mergeSimilarRules parser options state else state
  let original := state.1.originalCount
  let final := state.2.length
  let sizeReduction : Rat := if original > 0 then ((original : Rat)-final)/original*100 else 0
  ({ state.1 with finalCount := final, sizeReduction },state.2)

theorem RuleOptimizer.executeSync_rules (this : OptimizationStats) (rules : List Text) :
    (RuleOptimizer.executeSync parser options this rules).2 = Merging.executeSync parser options rules := by
  simp only [RuleOptimizer.executeSync,Merging.executeSync,RuleOptimizer.mergeSimilarRules,RuleOptimizer.simplifyModifiers,
    RuleOptimizer.optimizePatterns,RuleOptimizer.removeRedundantRules,apply_ite Prod.snd]

end RuleOptimizer

section ConflictDetection
variable (parser : RuleParser) (exempts : Text → Bool) (options : ConflictDetectionOptions)

def ConflictDetection.executeSync (_this : List RuleConflict) (rules : List Text) : List RuleConflict × List Text :=
  let conflicts : List RuleConflict := []
  let conflicts := conflicts ++ detect parser exempts rules
  if options.autoResolve ∧ 0 < conflicts.length then (conflicts,resolveConflicts options.resolutionStrategy conflicts rules)
  else (conflicts,rules)

theorem ConflictDetection.executeSync_rules (this : List RuleConflict) (rules : List Text) :
    (ConflictDetection.executeSync parser exempts options this rules).2 = (Conflicts.executeSync parser exempts options rules).1 := by
  simp only [ConflictDetection.executeSync,Conflicts.executeSync,List.nil_append,apply_ite Prod.snd,apply_ite Prod.fst]

end ConflictDetection

-- validateAllowIp is the validator that a ValidateAllowIpTransformation holds.
structure Instances where
  validate : ValidateTransformation := {}
  validateAllowIp : ValidateTransformation := {}
  conflicts : List RuleConflict := []
  stats : OptimizationStats := {}

-- The options are fixed when an instance is made. stateless are the
-- transformations in front of Deduplicate that write no field.
structure Registered where
  validator : Validator
  parser : RuleParser
  exempts : Text → Bool
  conflictDetection : ConflictDetectionOptions := {}
  ruleOptimizer : RuleOptimizerOptions := {}
  stateless : TransformationRegistry

abbrev Transformation := Instances → List Text → Instances × Except Thrown (List Text)

section Registry
variable (registered : Registered)

def pure_ (transformation : List Text → Except Thrown (List Text)) : Transformation := fun fields rules => (fields,transformation rules)

def get : TransformationType → Option Transformation
  | .Validate => some fun fields rules =>
    let done := Validation.executeSync registered.validator false fields.validate rules
    ({ fields with validate := done.1 },.ok done.2)
  | .ValidateAllowIp => some fun fields rules =>
    let done := Validation.executeSync registered.validator true fields.validateAllowIp rules
    ({ fields with validateAllowIp := done.1 },.ok done.2)
  | .ConflictDetection => some fun fields rules =>
    let done := ConflictDetection.executeSync registered.parser registered.exempts registered.conflictDetection fields.conflicts rules
    ({ fields with conflicts := done.1 },.ok done.2)
  | .RuleOptimizer => some fun fields rules =>
    let done := RuleOptimizer.executeSync registered.parser registered.ruleOptimizer fields.stats rules
    ({ fields with stats := done.1 },.ok done.2)
  | .Deduplicate => some (pure_ fun rules => .ok (Deduplicate.executeSync registered.parser rules))
  | .RemoveEmptyLines => some (pure_ fun rules => .ok (RuleUniqueness.RemoveEmptyLines.executeSync rules))
  | .InsertFinalNewLine => some (pure_ fun rules => .ok (RuleUniqueness.InsertFinalNewLine.executeSync rules))
  | type => (registered.stateless type).map pure_

def registry : TransformationRegistry := fun type => (get registered type).map fun transformation rules => (transformation {} rules).2

-- What a transformation returns is decided by the rules it is given.
theorem get_fields (found : get registered type = some transformation) (fields : Instances) (rules : List Text) :
    (transformation fields rules).2 = (transformation {} rules).2 := by
  cases type with
  | Validate =>
    cases found
    exact congrArg Except.ok (executeSync_fields _ _ _ rules)
  | ValidateAllowIp =>
    cases found
    exact congrArg Except.ok (executeSync_fields _ _ _ rules)
  | Deduplicate | RemoveEmptyLines | InsertFinalNewLine | ConflictDetection | RuleOptimizer =>
    cases found
    rfl
  | RemoveComments | Compress | RemoveModifiers | InvertAllow | TrimLines | ConvertToAscii =>
    obtain ⟨given,-,rfl⟩ := Option.map_eq_some_iff.mp found
    rfl

theorem registry_default (conflicts : registered.conflictDetection = {}) (optimizer : registered.ruleOptimizer = {}) :
    RuleUniqueness.defaultTransformations registered.parser registered.exempts (registry registered) = registry registered := by
  funext type
  cases type with
  | ConflictDetection =>
    simp only [RuleUniqueness.defaultTransformations,registry,get,Option.map_some,ConflictDetection.executeSync_rules,conflicts]
  | RuleOptimizer =>
    simp only [RuleUniqueness.defaultTransformations,registry,get,Option.map_some,RuleOptimizer.executeSync_rules,optimizer,
      executeSync_default]
  | _ => rfl

end Registry

end AdblockCompiler.SharedRegistry
