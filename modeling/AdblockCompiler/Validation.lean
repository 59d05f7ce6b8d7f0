import AdblockCompiler.Rules

namespace AdblockCompiler.Validation
open JsText Rules

-- What the validation reads of a rule tree. invalid is a rule that the tolerant
-- parser gives up on, unknown a category the validation does not name.
inductive AnyRule where
  | empty | comment | invalid | cosmetic | unknown
  | network (rule : NetworkRule)
  | host (hostnames : List Text)
  deriving DecidableEq, Repr

structure ParsedHost where
  hostname : Option Text
  isIp : Bool
  publicSuffix : Option Text
  deriving DecidableEq, Repr

inductive ValidationErrorType where
  | ParseError | SyntaxError | UnsupportedModifier | InvalidHostname | IpNotAllowed | PatternTooShort | PublicSuffixMatch
  | InvalidCharacters | CosmeticNotSupported | ModifierValidationFailed
  deriving DecidableEq, Repr

inductive ValidationSeverity where
  | Error | Warning | Info
  deriving DecidableEq, Repr

structure IValidationError where
  type : ValidationErrorType
  severity : ValidationSeverity
  ruleText : Text
  message : Text
  details : Option Text
  ast : Option AnyRule
  lineNumber : Nat
  sourceName : Option Text
  deriving DecidableEq, Repr

structure IValidationReport where
  errorCount : Nat
  warningCount : Nat
  infoCount : Nat
  errors : List IValidationError
  totalRules : Nat
  validRules : Nat
  invalidRules : Nat
  deriving DecidableEq, Repr

-- The fields of a ValidateTransformation that are written.
structure ValidateTransformation where
  lastValidationReport : Option IValidationReport := none
  currentSourceName : Option Text := none
  deriving DecidableEq, Repr

-- parse is RuleParser.parse, none where it throws; hostOf and getPublicSuffix
-- are those of TldUtils, modifierErrors the errors that
-- validateNetworkRuleModifiers gathers.
structure Validator where
  parse : Text → Option AnyRule
  hostOf : Text → ParsedHost
  getPublicSuffix : Text → Option Text
  modifierErrors : NetworkRule → List Text

def ANY_PATTERN_MODIFIER : List Text := ["denyallow","badfilter","client"].map String.toList

def SUPPORTED_MODIFIERS : List Text :=
  ["important","~important","ctag","dnstype","dnsrewrite"].map String.toList ++ ANY_PATTERN_MODIFIER

def indexOf (text part : Text) (position : Nat) : Option Nat :=
  (List.range' position (text.length+1-position)).find? fun i => startsWith (text.drop i) part

def substringBetween (str startTag endTag : Text) : Option Text :=
  if str = [] then none
  else
    match indexOf str startTag 0 with
    | none => none
    | some start =>
      let contentStart := start+startTag.length
      match indexOf str endTag contentStart with
      | none => none
      | some end_ => if end_ > contentStart then some ((str.take end_).drop contentStart) else none

-- String.prototype.replace for a text: the first place only.
def replaceFirst (text part : Text) : Text :=
  match indexOf text part 0 with
  | none => text
  | some i => text.take i ++ text.drop (i+part.length)

-- The characters of /^[a-zA-Z0-9-.*|^]+$/.
def isPatternChar (c : Char) : Bool := c.isAlphanum || ['-','.','*','|','^'].contains c

structure Verdict where
  valid : Bool
  errors : List IValidationError := []

section Checks
variable (v : Validator) (allowIp : Bool) (currentSourceName : Option Text)

def addValidationError (type : ValidationErrorType) (severity : ValidationSeverity) (ruleText message : Text) (details : Option Text)
    (ast : Option AnyRule) (lineNumber : Nat) : IValidationError :=
  ⟨type,severity,ruleText,message,details,ast,lineNumber,currentSourceName⟩

-- return false behind one error.
def refused (type : ValidationErrorType) (ruleText message details : Text) (ast : Option AnyRule) (lineNumber : Nat) : Verdict :=
  ⟨false,[addValidationError currentSourceName type .Error ruleText message (some details) ast lineNumber]⟩

def validateHostname (hostname ruleText : Text) (hasLimitModifier : Bool) (lineNumber : Nat) : Verdict :=
  let result := v.hostOf hostname
  if result.hostname.getD [] = [] then
    refused currentSourceName .InvalidHostname ruleText ("Invalid hostname: ".toList ++ hostname)
      "The hostname format is not valid".toList none lineNumber
  else if !allowIp && result.isIp then
    refused currentSourceName .IpNotAllowed ruleText ("IP address not allowed: ".toList ++ hostname)
      "IP addresses are not permitted in this configuration".toList none lineNumber
  else if result.hostname = result.publicSuffix ∧ hasLimitModifier = false then
    refused currentSourceName .PublicSuffixMatch ruleText ("Public suffix matching not allowed: ".toList ++ hostname)
      "Matching entire public suffixes (like .com, .org) is too broad".toList none lineNumber
  else ⟨true,[]⟩

-- The first hostname that is refused ends the loop.
def validateHostnames (ruleText : Text) (lineNumber : Nat) : List Text → Verdict
  | [] => ⟨true,[]⟩
  | hostname :: rest =>
    let verdict := validateHostname v allowIp currentSourceName hostname ruleText false lineNumber
    if verdict.valid then validateHostnames ruleText lineNumber rest else verdict

def validateHostRule (hostnames : List Text) (ruleText : Text) (lineNumber : Nat) : Verdict :=
  if hostnames = [] then ⟨false,[]⟩ else validateHostnames v allowIp currentSourceName ruleText lineNumber hostnames

def validatePattern (rule : NetworkRule) (hasLimitModifier : Bool) (ruleText : Text) (lineNumber : Nat) : Verdict :=
  let pattern := rule.pattern
  let toTest := if startsWith pattern "://".toList then pattern.drop 3 else pattern
  let sepIdx := indexOf pattern ['^'] 0
  let wildcardIdx := indexOf pattern ['*'] 0
  if startsWith pattern ['/'] && endsWith pattern ['/'] then ⟨true,[]⟩
  else if toTest = [] ∨ toTest.all isPatternChar = false then
    refused currentSourceName .InvalidCharacters ruleText "Invalid characters in pattern".toList
      "Pattern contains characters not allowed in domain names".toList (some (.network rule)) lineNumber
  else if sepIdx.any (fun sep => wildcardIdx.any (sep < ·)) then ⟨false,[]⟩
  else if startsWith pattern ['|','|'] = false then ⟨true,[]⟩
  else
    let domainToCheck :=
      match sepIdx with
      | some _ => substringBetween pattern ['|','|'] ['^']
      | none => some (pattern.drop 2)
    let domain := domainToCheck.getD []
    if domain ≠ [] ∧ domain.length < 3 then
      refused currentSourceName .PatternTooShort ruleText "Pattern too short".toList
        "Minimum domain length is 3 characters".toList (some (.network rule)) lineNumber
    else
      match sepIdx with
      | none => ⟨true,[]⟩
      | some sep =>
        if domain ≠ [] ∧ wildcardIdx.isSome then
          let tldPattern := replaceFirst domain ['*','.']
          if startsWith domain ['*','.'] ∧ v.getPublicSuffix tldPattern = some tldPattern then
            validateHostname v allowIp currentSourceName tldPattern ruleText hasLimitModifier lineNumber
          else ⟨true,[]⟩
        else
          let verdict :=
            if domain ≠ [] then validateHostname v allowIp currentSourceName domain ruleText hasLimitModifier lineNumber else ⟨true,[]⟩
          if verdict.valid then ⟨!(sep+1 < pattern.length && pattern[sep+1]? ≠ some '|'),verdict.errors⟩ else verdict

def modName (mod : Modifier) : Text := if mod.exception then '~' :: mod.name else mod.name

def validateNetworkRule (rule : NetworkRule) (ruleText : Text) (lineNumber : Nat) : Verdict :=
  let hasLimitModifier := rule.modifiers.any (·.name ∈ ANY_PATTERN_MODIFIER)
  match rule.modifiers.find? fun mod => modName mod ∉ SUPPORTED_MODIFIERS ∧ mod.name ∉ SUPPORTED_MODIFIERS with
  | some mod =>
    refused currentSourceName .UnsupportedModifier ruleText ("Unsupported modifier: ".toList ++ mod.name)
      ("Supported modifiers: ".toList ++ [',',' '].intercalate SUPPORTED_MODIFIERS) (some (.network rule)) lineNumber
  | none =>
    let warnings :=
      if rule.modifiers = [] ∨ v.modifierErrors rule = [] then []
      else
        [addValidationError currentSourceName .ModifierValidationFailed .Warning ruleText "Modifier validation warning".toList
          (some ([',',' '].intercalate (v.modifierErrors rule))) (some (.network rule)) lineNumber]
    let verdict := validatePattern v allowIp currentSourceName rule hasLimitModifier ruleText lineNumber
    ⟨verdict.valid,warnings ++ verdict.errors⟩

-- What a text that cannot be parsed is taken for.
def looksLikeComment (ruleText : Text) : Bool :=
  startsWith ruleText ['!'] || startsWith ruleText "# ".toList || ruleText = ['#'] || startsWith ruleText "####".toList

def isCommentOrEmpty (ast : Option AnyRule) (ruleText : Text) : Bool :=
  if trim ruleText = [] then true
  else
    match ast with
    | some ast => ast = .comment || ast = .empty
    | none => looksLikeComment ruleText

def isValidParsedRule (ast : Option AnyRule) (ruleText : Text) (lineNumber : Nat) : Verdict :=
  if trim ruleText = [] then ⟨true,[]⟩
  else
    match ast with
    | none =>
      if looksLikeComment ruleText then ⟨true,[]⟩
      else
        refused currentSourceName .ParseError ruleText "Failed to parse rule".toList "The rule could not be parsed by AGTree".toList
          none lineNumber
    | some .comment => ⟨true,[]⟩
    | some .empty => ⟨true,[]⟩
    | some .invalid =>
      refused currentSourceName .SyntaxError ruleText "Invalid rule syntax".toList "The rule has syntax errors".toList
        (some .invalid) lineNumber
    | some (.host hostnames) => validateHostRule v allowIp currentSourceName hostnames ruleText lineNumber
    | some (.network rule) => validateNetworkRule v allowIp currentSourceName rule ruleText lineNumber
    | some .cosmetic =>
      refused currentSourceName .CosmeticNotSupported ruleText "Cosmetic rules not supported".toList
        "DNS blockers do not support cosmetic/element hiding rules".toList (some .cosmetic) lineNumber
    | some .unknown => ⟨false,[]⟩

-- The state of the loop, which goes through the lines from the last one.
structure Sweep where
  filtered : List Text := []
  validationErrors : List IValidationError := []
  previousRuleRemoved : Bool := false

def Sweep.visit (line : Text × Nat) (sweep : Sweep) : Sweep :=
  let ruleText := line.1
  let ast := v.parse (trim ruleText)
  let verdict := isValidParsedRule v allowIp currentSourceName ast ruleText (line.2+1)
  let validationErrors := sweep.validationErrors ++ verdict.errors
  if verdict.valid = false then { filtered := sweep.filtered, validationErrors, previousRuleRemoved := true }
  else if sweep.previousRuleRemoved ∧ isCommentOrEmpty ast ruleText then { sweep with validationErrors }
  else { filtered := ruleText :: sweep.filtered, validationErrors, previousRuleRemoved := false }

def sweep (rules : List Text) : Sweep := rules.zipIdx.foldr (Sweep.visit v allowIp currentSourceName) {}

end Checks

def report (sweep : Sweep) (totalRules : Nat) : IValidationReport where
  errorCount := sweep.validationErrors.countP (·.severity = .Error)
  warningCount := sweep.validationErrors.countP (·.severity = .Warning)
  infoCount := sweep.validationErrors.countP (·.severity = .Info)
  errors := sweep.validationErrors
  totalRules := totalRules
  validRules := sweep.filtered.length
  invalidRules := totalRules-sweep.filtered.length

section Transformation
variable (v : Validator) (allowIp : Bool)

-- The rules, and the instance with its new report.
def executeSync (this : ValidateTransformation) (rules : List Text) : ValidateTransformation × List Text :=
  let done := sweep v allowIp this.currentSourceName rules
  ({ this with lastValidationReport := some (report done rules.length) },done.filtered)

end Transformation

-- The source name and the line number are written into the errors and decide
-- nothing else.
section SourceName
variable (v : Validator) (allowIp : Bool) (one other : Option Text) (first second : Nat)

theorem hostname_source (hostname ruleText : Text) (hasLimitModifier : Bool) :
    (validateHostname v allowIp one hostname ruleText hasLimitModifier first).valid =
      (validateHostname v allowIp other hostname ruleText hasLimitModifier second).valid := by
  unfold validateHostname
  simp only [apply_ite Verdict.valid]
  rfl

theorem hostnames_source (ruleText : Text) (hostnames : List Text) :
    (validateHostnames v allowIp one ruleText first hostnames).valid =
      (validateHostnames v allowIp other ruleText second hostnames).valid := by
  induction hostnames with
  | nil => rfl
  | cons hostname rest ih =>
    simp only [validateHostnames,hostname_source v allowIp one other first second,apply_ite Verdict.valid,ih]

theorem pattern_source (rule : NetworkRule) (hasLimitModifier : Bool) (ruleText : Text) :
    (validatePattern v allowIp one rule hasLimitModifier ruleText first).valid =
      (validatePattern v allowIp other rule hasLimitModifier ruleText second).valid := by
  simp only [validatePattern]
  cases indexOf rule.pattern ['^'] 0 with
  | none =>
    simp only [apply_ite Verdict.valid]
    rfl
  | some sep =>
    simp only [apply_ite Verdict.valid,hostname_source v allowIp one other first second]
    rfl

theorem network_source (rule : NetworkRule) (ruleText : Text) :
    (validateNetworkRule v allowIp one rule ruleText first).valid =
      (validateNetworkRule v allowIp other rule ruleText second).valid := by
  unfold validateNetworkRule
  split
  · rfl
  · exact pattern_source v allowIp one other first second rule _ ruleText

theorem rule_source (ast : Option AnyRule) (ruleText : Text) :
    (isValidParsedRule v allowIp one ast ruleText first).valid =
      (isValidParsedRule v allowIp other ast ruleText second).valid := by
  unfold isValidParsedRule
  by_cases blank : trim ruleText = []
  · rw [if_pos blank,if_pos blank]
  · rw [if_neg blank,if_neg blank]
    cases ast with
    | none =>
      simp only [apply_ite Verdict.valid]
      rfl
    | some ast =>
      cases ast with
      | host hostnames =>
        simp only [validateHostRule,apply_ite Verdict.valid,hostnames_source v allowIp one other first second]
      | network rule => exact network_source v allowIp one other first second rule ruleText
      | empty => rfl
      | comment => rfl
      | invalid => rfl
      | cosmetic => rfl
      | unknown => rfl

structure SameRules (one other : Sweep) : Prop where
  filtered : one.filtered = other.filtered
  removed : one.previousRuleRemoved = other.previousRuleRemoved

theorem visit_source (line : Text × Nat) (same : SameRules before after) :
    SameRules (before.visit v allowIp one line) (after.visit v allowIp other line) := by
  obtain ⟨filtered,removed⟩ := same
  have verdict := rule_source v allowIp one other (line.2+1) (line.2+1) (v.parse (trim line.1)) line.1
  simp only [Sweep.visit,verdict,removed]
  split
  · exact ⟨filtered,rfl⟩
  · split
    · exact ⟨filtered,rfl⟩
    · exact ⟨congrArg (line.1 :: ·) filtered,rfl⟩

theorem sweep_source (rules : List Text) : (sweep v allowIp one rules).filtered = (sweep v allowIp other rules).filtered := by
  have loop (lines : List (Text × Nat)) :
      SameRules (lines.foldr (Sweep.visit v allowIp one) {}) (lines.foldr (Sweep.visit v allowIp other) {}) := by
    induction lines with
    | nil => exact ⟨rfl,rfl⟩
    | cons line lines ih => exact visit_source v allowIp one other line ih
  exact (loop rules.zipIdx).filtered

end SourceName

-- The rules that are returned do not depend on what the instance holds.
theorem executeSync_fields (v : Validator) (allowIp : Bool) (this : ValidateTransformation) (rules : List Text) :
    (executeSync v allowIp this rules).2 = (executeSync v allowIp {} rules).2 := sweep_source v allowIp _ _ rules

-- What one line's check says, and whether the line only speaks about others.
section Remarks
variable (v : Validator) (allowIp : Bool) (currentSourceName : Option Text)

def checked (line : Text × Nat) : Verdict :=
  isValidParsedRule v allowIp currentSourceName (v.parse (trim line.1)) line.1 (line.2+1)

def isRemark (line : Text × Nat) : Bool := isCommentOrEmpty (v.parse (trim line.1)) line.1

def ruleKept (lines : List (Text × Nat)) : Bool :=
  (lines.find? fun line => !isRemark v line).all fun line => (checked v allowIp currentSourceName line).valid

-- A rule is kept for its own sake, a remark with the rule that comes next.
def stays (line : Text × Nat) (after : List (Text × Nat)) : Bool :=
  if isRemark v line then ruleKept v allowIp currentSourceName after else (checked v allowIp currentSourceName line).valid

theorem ruleKept_cons (line : Text × Nat) (after : List (Text × Nat)) :
    ruleKept v allowIp currentSourceName (line :: after) = stays v allowIp currentSourceName line after := by
  unfold ruleKept stays
  cases remark : isRemark v line <;> simp [remark,ruleKept]

theorem remark_checked (remark : isRemark v line = true) : checked v allowIp currentSourceName line = ⟨true,[]⟩ := by
  unfold isRemark isCommentOrEmpty at remark
  unfold checked isValidParsedRule
  by_cases blank : trim line.1 = []
  · rw [if_pos blank]
  · rw [if_neg blank] at remark ⊢
    cases parsed : v.parse (trim line.1) with
    | none =>
      simp only [parsed] at remark
      simp [remark]
    | some ast =>
      simp only [parsed,Bool.or_eq_true,decide_eq_true_eq] at remark
      rcases remark with comment | empty
      · rw [comment]
      · rw [empty]

-- What the loop holds once it has gone through the lines after its index.
structure Swept (after : List (Text × Nat)) (s : Sweep) : Prop where
  removed : s.previousRuleRemoved = !ruleKept v allowIp currentSourceName after
  errors : s.validationErrors = after.reverse.flatMap fun line => (checked v allowIp currentSourceName line).errors

theorem visit_exact (line : Text × Nat) (s : Sweep) :
    s.visit v allowIp currentSourceName line =
      let validationErrors := s.validationErrors ++ (checked v allowIp currentSourceName line).errors
      if (checked v allowIp currentSourceName line).valid = false then ⟨s.filtered,validationErrors,true⟩
      else if s.previousRuleRemoved ∧ isRemark v line then ⟨s.filtered,validationErrors,s.previousRuleRemoved⟩
      else ⟨line.1 :: s.filtered,validationErrors,false⟩ := rfl

theorem visit_errors (line : Text × Nat) (s : Sweep) :
    (s.visit v allowIp currentSourceName line).validationErrors =
      s.validationErrors ++ (checked v allowIp currentSourceName line).errors := by
  rw [visit_exact]
  dsimp only
  split
  · rfl
  · split <;> rfl

-- A remark is never refused: it goes or stays by the flag, which it leaves as it is.
theorem visit_kept (line : Text × Nat) (swept : Swept v allowIp currentSourceName after s) :
    (s.visit v allowIp currentSourceName line).previousRuleRemoved = !stays v allowIp currentSourceName line after ∧
      (s.visit v allowIp currentSourceName line).filtered =
        if stays v allowIp currentSourceName line after then line.1 :: s.filtered else s.filtered := by
  rw [visit_exact,swept.removed]
  cases remark : isRemark v line with
  | true =>
    rw [remark_checked v allowIp currentSourceName remark]
    cases kept : ruleKept v allowIp currentSourceName after <;> simp [stays,remark,kept]
  | false => cases valid : (checked v allowIp currentSourceName line).valid <;> simp [stays,remark,valid]

theorem swept_visit (line : Text × Nat) (swept : Swept v allowIp currentSourceName after s) :
    Swept v allowIp currentSourceName (line :: after) (s.visit v allowIp currentSourceName line) := by
  refine ⟨?_,?_⟩
  · rw [ruleKept_cons]
    exact (visit_kept v allowIp currentSourceName line swept).1
  · rw [visit_errors,swept.errors,List.reverse_cons,List.flatMap_append,List.flatMap_singleton]

theorem swept_all (lines : List (Text × Nat)) :
    Swept v allowIp currentSourceName lines (lines.foldr (Sweep.visit v allowIp currentSourceName) {}) := by
  induction lines with
  | nil => exact ⟨rfl,rfl⟩
  | cons line after ih => exact swept_visit v allowIp currentSourceName line ih

end Remarks

-- Every error of a check names the line the check was given.
def Verdict.Names (verdict : Verdict) (ruleText : Text) (lineNumber : Nat) : Prop :=
  ∀ error ∈ verdict.errors, error.ruleText = ruleText ∧ error.lineNumber = lineNumber

section Naming
variable (v : Validator) (allowIp : Bool) (currentSourceName : Option Text) (ruleText : Text) (lineNumber : Nat)

theorem silent_names (valid : Bool) : (⟨valid,[]⟩ : Verdict).Names ruleText lineNumber :=
  fun _ member => absurd member List.not_mem_nil

theorem refused_names (type : ValidationErrorType) (message details : Text) (ast : Option AnyRule) :
    (refused currentSourceName type ruleText message details ast lineNumber).Names ruleText lineNumber := by
  intro error member
  rw [List.mem_singleton.mp member]
  exact ⟨rfl,rfl⟩

theorem either_names [Decidable c] (one other : Verdict) (first : one.Names ruleText lineNumber)
    (second : other.Names ruleText lineNumber) : (if c then one else other).Names ruleText lineNumber := by
  split
  · exact first
  · exact second

theorem hostname_names (hostname : Text) (hasLimitModifier : Bool) :
    (validateHostname v allowIp currentSourceName hostname ruleText hasLimitModifier lineNumber).Names ruleText lineNumber := by
  refine either_names _ _ _ _ (refused_names _ _ _ _ _ _ _) ?_
  refine either_names _ _ _ _ (refused_names _ _ _ _ _ _ _) ?_
  exact either_names _ _ _ _ (refused_names _ _ _ _ _ _ _) (silent_names _ _ _)

theorem hostnames_names (hostnames : List Text) :
    (validateHostnames v allowIp currentSourceName ruleText lineNumber hostnames).Names ruleText lineNumber := by
  induction hostnames with
  | nil => exact silent_names _ _ _
  | cons hostname rest ih =>
    unfold validateHostnames
    dsimp only
    split
    · exact ih
    · exact hostname_names v allowIp currentSourceName ruleText lineNumber hostname false

theorem pattern_names (rule : NetworkRule) (hasLimitModifier : Bool) :
    (validatePattern v allowIp currentSourceName rule hasLimitModifier ruleText lineNumber).Names ruleText lineNumber := by
  have hostname := fun text => hostname_names v allowIp currentSourceName ruleText lineNumber text hasLimitModifier
  refine either_names _ _ _ _ (silent_names _ _ _) ?_
  refine either_names _ _ _ _ (refused_names _ _ _ _ _ _ _) ?_
  refine either_names _ _ _ _ (silent_names _ _ _) ?_
  refine either_names _ _ _ _ (silent_names _ _ _) ?_
  refine either_names _ _ _ _ (refused_names _ _ _ _ _ _ _) ?_
  cases indexOf rule.pattern ['^'] 0 with
  | none => exact silent_names _ _ _
  | some sep =>
    refine either_names _ _ _ _ (either_names _ _ _ _ (hostname _) (silent_names _ _ _)) ?_
    -- the verdict on the host keeps its errors, whatever stands after the separator
    dsimp only
    have host := fun text => either_names (c := text ≠ []) ruleText lineNumber _ _ (hostname text) (silent_names ruleText lineNumber true)
    exact either_names _ _ _ _ (host _) (host _)

theorem network_names (rule : NetworkRule) :
    (validateNetworkRule v allowIp currentSourceName rule ruleText lineNumber).Names ruleText lineNumber := by
  unfold validateNetworkRule
  dsimp only
  split
  · exact refused_names _ _ _ _ _ _ _
  · intro error member
    rcases List.mem_append.mp member with warning | refusal
    · split at warning
      · exact absurd warning List.not_mem_nil
      · rw [List.mem_singleton.mp warning]
        exact ⟨rfl,rfl⟩
    · exact pattern_names v allowIp currentSourceName ruleText lineNumber rule _ error refusal

theorem rule_names (ast : Option AnyRule) :
    (isValidParsedRule v allowIp currentSourceName ast ruleText lineNumber).Names ruleText lineNumber := by
  unfold isValidParsedRule
  split
  · exact silent_names _ _ _
  · split
    · split
      · exact silent_names _ _ _
      · exact refused_names _ _ _ _ _ _ _
    · exact silent_names _ _ _
    · exact silent_names _ _ _
    · exact refused_names _ _ _ _ _ _ _
    · unfold validateHostRule
      split
      · exact silent_names _ _ _
      · exact hostnames_names v allowIp currentSourceName ruleText lineNumber _
    · exact network_names v allowIp currentSourceName ruleText lineNumber _
    · exact refused_names _ _ _ _ _ _ _
    · exact silent_names _ _ _

end Naming

theorem sweep_filtered (v : Validator) (allowIp : Bool) (currentSourceName : Option Text) (rules : List Text) (first : Nat) :
    ((rules.zipIdx first).foldr (Sweep.visit v allowIp currentSourceName) {}).filtered =
      ((rules.zipIdx first).filter fun line =>
        stays v allowIp currentSourceName line ((rules.zipIdx first).drop (line.2+1-first))).map Prod.fst := by
  induction rules generalizing first with
  | nil => rfl
  | cons rule rest ih =>
    have later : (rest.zipIdx (first+1)).filter (fun line =>
          stays v allowIp currentSourceName line (((rule,first) :: rest.zipIdx (first+1)).drop (line.2+1-first))) =
        (rest.zipIdx (first+1)).filter fun line =>
          stays v allowIp currentSourceName line ((rest.zipIdx (first+1)).drop (line.2+1-(first+1))) := by
      apply List.filter_congr
      intro line member
      have after := List.le_snd_of_mem_zipIdx member
      have index : line.2+1-first = line.2+1-(first+1)+1 := by omega
      rw [index,List.drop_succ_cons]
    have own : ((rule,first) :: rest.zipIdx (first+1)).drop (first+1-first) = rest.zipIdx (first+1) := by simp
    rw [List.zipIdx_cons,List.foldr_cons,(visit_kept v allowIp currentSourceName _ (swept_all v allowIp currentSourceName _)).2,
      ih,List.filter_cons,own,later]
    split <;> rfl

-- Looking forward from each line: what stays are the accepted rules, and the
-- remarks in front of an accepted rule or of none. The report is what the checks
-- said, from the last line to the first, each error with its line.
theorem executeSync_remarks (v : Validator) (allowIp : Bool) (this : ValidateTransformation) (rules : List Text) :
    (executeSync v allowIp this rules).2 =
        (rules.zipIdx.filter fun line => stays v allowIp this.currentSourceName line (rules.zipIdx.drop (line.2+1))).map Prod.fst ∧
      ∃ validation, (executeSync v allowIp this rules).1.lastValidationReport = some validation ∧
        validation.errors = rules.zipIdx.reverse.flatMap (fun line => (checked v allowIp this.currentSourceName line).errors) ∧
        ∀ error ∈ validation.errors, ∃ index, rules[index]? = some error.ruleText ∧ error.lineNumber = index+1 ∧
          error ∈ (checked v allowIp this.currentSourceName (error.ruleText,index)).errors := by
  refine ⟨sweep_filtered v allowIp this.currentSourceName rules 0,_,rfl,(swept_all v allowIp this.currentSourceName rules.zipIdx).errors,?_⟩
  intro error member
  rw [show (report (sweep v allowIp this.currentSourceName rules) rules.length).errors =
    (sweep v allowIp this.currentSourceName rules).validationErrors from rfl,sweep,
    (swept_all v allowIp this.currentSourceName rules.zipIdx).errors] at member
  obtain ⟨line,inside,found⟩ := List.mem_flatMap.mp member
  have position : rules[line.2]? = some line.1 := by
    rw [List.mem_reverse] at inside
    exact List.mem_zipIdx_iff_getElem?.mp inside
  obtain ⟨text,number⟩ := rule_names v allowIp this.currentSourceName line.1 (line.2+1) _ error found
  exact ⟨line.2,by rw [text,position],number,by rw [text]; exact found⟩

-- A parser that knows cosmetic rules and comments.
def cosmeticValidator : Validator where
  parse := fun text => if startsWith text "##".toList then some .cosmetic else if startsWith text ['!'] then some .comment else none
  hostOf := fun _ => ⟨none,false,none⟩
  getPublicSuffix := fun _ => none
  modifierErrors := fun _ => []

-- A remark and the blank line under it go with the rule they stand above.
example : (executeSync cosmeticValidator true {} ["! hide".toList,[],"##.ad".toList,[],"# plain".toList]).2 = [[],"# plain".toList] := by
  decide +kernel

end AdblockCompiler.Validation
