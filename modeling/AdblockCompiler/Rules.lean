import AdblockCompiler.JsText

namespace AdblockCompiler.Rules
open JsText

-- What the compiler reads of a rule tree of @adguard/agtree.
structure Modifier where
  name : Text
  value : Option Text := none
  exception : Bool := false
  deriving DecidableEq, Repr

structure NetworkRule where
  pattern : Text
  exception : Bool := false
  modifiers : List Modifier := []
  deriving DecidableEq, Repr

inductive AnyRule where
  | comment
  | network (rule : NetworkRule)
  | host (hostnames : List Text)
  | other
  deriving DecidableEq, Repr

-- RuleParser.parse on a trimmed text; none where it throws or gives an invalid
-- rule.
abbrev RuleParser := Text → Option AnyRule

structure IRuleModifier where
  name : Text
  value : Option Text
  deriving DecidableEq, Repr

structure IAdblockRule where
  ruleText : Text
  pattern : Text
  whitelist : Bool
  options : Option (List IRuleModifier)
  hostname : Option Text
  deriving DecidableEq, Repr

structure IEtcHostsRule where
  ruleText : Text
  hostnames : List Text
  deriving DecidableEq, Repr

-- The label of DOMAIN_REGEX.
def isLabelChar (c : Char) : Bool := c.isAlphanum || c == '-'

def domainLabel (label : Text) : Bool :=
  label.all isLabelChar && 1 ≤ label.length && label.length ≤ 63 && label.head?.any Char.isAlphanum &&
    label.getLast?.any Char.isAlphanum

def DOMAIN_REGEX (text : Text) : Bool :=
  let name := if text.getLast? = some '.' then text.dropLast else text
  1 ≤ text.length && text.length ≤ 255 && (name.splitOn '.').all domainLabel

-- The group of /^\|\|([a-z0-9-.]+)\^?$/.
def isHostnameChar (c : Char) : Bool := c.isLower || c.isDigit || c == '-' || c == '.'

def patternHostname (pattern : Text) : Option Text :=
  let hostname := (pattern.drop 2).takeWhile isHostnameChar
  let tail := (pattern.drop 2).dropWhile isHostnameChar
  if startsWith pattern ['|','|'] ∧ hostname ≠ [] ∧ (tail = [] ∨ tail = ['^']) then some hostname else none

def optionOf (mod : Modifier) : IRuleModifier := ⟨if mod.exception then '~' :: mod.name else mod.name,mod.value⟩

section RuleUtils
variable (parser : RuleParser)

def AGTreeParser.parse (ruleText : Text) : Option AnyRule := parser (trim ruleText)

def isComment (ruleText : Text) : Bool :=
  match AGTreeParser.parse parser ruleText with
  | some ast => ast = .comment
  | none => startsWith ruleText ['!'] || startsWith ruleText "# ".toList || ruleText = ['#'] || startsWith ruleText "####".toList

def isJustDomain (ruleText : Text) : Bool := '.' ∈ ruleText && DOMAIN_REGEX ruleText

def isEtcHostsRule (ruleText : Text) : Bool :=
  match AGTreeParser.parse parser ruleText with
  | some (.host _) => true
  | _ => false

def loadEtcHostsRuleProperties (ruleText : Text) : Except Thrown IEtcHostsRule :=
  match AGTreeParser.parse parser (trim ruleText) with
  | some (.host hostnames) => .ok ⟨ruleText,hostnames⟩
  | _ => .error ("Invalid /etc/hosts rule: ".toList ++ ruleText)

def loadAdblockRuleProperties (ruleText : Text) : IAdblockRule :=
  match AGTreeParser.parse parser (trim ruleText) with
  | some (.network rule) =>
    { ruleText
      pattern := rule.pattern
      whitelist := rule.exception
      options :=
        if rule.modifiers = [] then none
        else some (rule.modifiers.map optionOf)
      hostname := patternHostname rule.pattern }
  | _ =>
    let isWhitelist := startsWith ruleText "@@".toList
    { ruleText
      pattern := if isWhitelist then ruleText.drop 2 else ruleText
      whitelist := isWhitelist
      options := none
      hostname := none }

-- The pattern of a blocking network rule without modifiers.
def networkPattern (ruleText : Text) : Option Text :=
  match AGTreeParser.parse parser ruleText with
  | some (.network rule) => if rule.exception = false ∧ rule.modifiers = [] then some rule.pattern else none
  | _ => none

end RuleUtils

-- An empty value is falsy and not printed.
def optionText (option : IRuleModifier) : Text :=
  match option.value with
  | none | some [] => option.name
  | some value => option.name ++ '=' :: value

def adblockRuleToString (ruleProps : IAdblockRule) : Text :=
  (if ruleProps.whitelist then "@@".toList else []) ++ ruleProps.pattern ++
    match ruleProps.options with
    | none | some [] => []
    | some options => '$' :: [','].intercalate (options.map optionText)

-- `||hostname^` and `||hostname`.
def anchored (hostname : Text) : Text := '|' :: '|' :: hostname
def blocking (hostname : Text) : Text := anchored hostname ++ ['^']

@[simp] theorem anchored_bars (hostname : Text) : startsWith (anchored hostname) ['|','|'] = true := by
  simp [anchored,startsWith]
@[simp] theorem blocking_bars (hostname : Text) : startsWith (blocking hostname) ['|','|'] = true := by
  simp [blocking,anchored,startsWith]
@[simp] theorem anchored_body (hostname : Text) : (anchored hostname).drop 2 = hostname := rfl
@[simp] theorem blocking_body (hostname : Text) : (blocking hostname).drop 2 = hostname ++ ['^'] := rfl

def Hostname (hostname : Text) : Prop := hostname ≠ [] ∧ ∀ c ∈ hostname, isHostnameChar c = true

-- The group of /^\|\|(…+)\^?$/ for any class of characters in it.
def anchoredName (isChar : Char → Bool) (text : Text) : Option Text :=
  let name := (text.drop 2).takeWhile isChar
  let tail := (text.drop 2).dropWhile isChar
  if startsWith text ['|','|'] ∧ name ≠ [] ∧ (tail = [] ∨ tail = ['^']) then some name else none

theorem name_scan (isChar : Char → Bool) (outside : isChar '^' = false) (valid : ∀ c ∈ name, isChar c = true) (tail : Text)
    (stops : tail = [] ∨ tail = ['^']) : (name ++ tail).takeWhile isChar = name ∧ (name ++ tail).dropWhile isChar = tail := by
  rw [List.takeWhile_append_of_pos valid,List.dropWhile_append_of_pos valid]
  rcases stops with rfl | rfl <;> simp [outside]

theorem anchoredName_exact (isChar : Char → Bool) (outside : isChar '^' = false) :
    anchoredName isChar text = some name ↔
      (name ≠ [] ∧ ∀ c ∈ name, isChar c = true) ∧ (text = anchored name ∨ text = blocking name) := by
  simp only [anchoredName]
  constructor
  · intro found
    split at found
    · next shape =>
      obtain ⟨starts,some,tail⟩ := shape
      obtain ⟨rest,rfl⟩ := startsWith_iff.mp starts
      have two : (['|','|'] ++ rest).drop 2 = rest := rfl
      rw [two] at found tail some
      cases found
      have whole := List.takeWhile_append_dropWhile (p := isChar) (l := rest)
      refine ⟨⟨some,fun c member => List.mem_takeWhile_imp member⟩,?_⟩
      rcases tail with none | caret
      · left
        rw [none,List.append_nil] at whole
        exact congrArg anchored whole.symm
      · right
        rw [caret] at whole
        exact congrArg anchored whole.symm
    · cases found
  · rintro ⟨valid,rfl | rfl⟩
    · obtain ⟨take,drop⟩ := name_scan isChar outside valid.2 [] (.inl rfl)
      rw [List.append_nil] at take drop
      simp [take,drop,valid.1]
    · obtain ⟨take,drop⟩ := name_scan isChar outside valid.2 ['^'] (.inr rfl)
      simp [take,drop,valid.1]

theorem patternHostname_exact :
    patternHostname pattern = some hostname ↔
      Hostname hostname ∧ (pattern = anchored hostname ∨ pattern = blocking hostname) :=
  anchoredName_exact isHostnameChar (by decide)

section Parsing
variable (parser : RuleParser)

@[simp] theorem parse_trim (ruleText : Text) :
    AGTreeParser.parse parser (trim ruleText) = AGTreeParser.parse parser ruleText := by
  simp [AGTreeParser.parse]

theorem properties_exact (ruleText hostname : Text) :
    (loadAdblockRuleProperties parser ruleText).hostname = some hostname ∧
        (loadAdblockRuleProperties parser ruleText).whitelist = false ∧
        (loadAdblockRuleProperties parser ruleText).options.getD [] = [] ↔
      (networkPattern parser ruleText).bind patternHostname = some hostname := by
  cases parsed : AGTreeParser.parse parser ruleText with
  | none => simp [loadAdblockRuleProperties,networkPattern,parsed]
  | some ast =>
    cases ast with
    | network rule =>
      by_cases plain : rule.modifiers = []
      · cases exception : rule.exception <;> simp [loadAdblockRuleProperties,networkPattern,parsed,plain,exception]
      · simp [loadAdblockRuleProperties,networkPattern,parsed,plain]
    | comment => simp [loadAdblockRuleProperties,networkPattern,parsed]
    | host => simp [loadAdblockRuleProperties,networkPattern,parsed]
    | other => simp [loadAdblockRuleProperties,networkPattern,parsed]

end Parsing

theorem trim_blocking (hostname : Text) : trim (blocking hostname) = blocking hostname := by
  apply trim_trimmed
  have front : (blocking hostname).head? = some '|' := rfl
  have last : (blocking hostname).getLast? = some '^' := List.getLast?_concat
  apply trimmed_ends
  · rw [front]
    decide
  · rw [last]
    decide

-- Comments, anchored blocking rules and hosts lines of one name, for concrete
-- runs.
def basicParser : RuleParser := fun text =>
  if startsWith text ['|','|'] then some (.network { pattern := text })
  else if startsWith text "0.0.0.0 ".toList then some (.host [text.drop 8])
  else if startsWith text ['!'] then some .comment
  else none

theorem basicParser_anchored (bars : startsWith text ['|','|'] = true) (trimmed : trim text = text) :
    AGTreeParser.parse basicParser text = some (.network { pattern := text }) := by
  rw [AGTreeParser.parse,trimmed,basicParser,if_pos bars]

end AdblockCompiler.Rules
