import AdblockCompiler.Globs
import AdblockCompiler.Rules

namespace AdblockCompiler.Optimizer
open JsText Rules HostPatterns Globs

-- Comments and empty lines, on a trimmed text.
def skipped (rule : Text) : Bool := rule.isEmpty || startsWith rule ['!'] || startsWith rule ['#']

section Transformation
variable (parser : RuleParser)

structure Scan where
  domainRules : List (Text × Nat) := []
  keepIndices : List Nat := []

def Scan.keep (scan : Scan) (i : Nat) : Scan := { scan with keepIndices := scan.keepIndices ++ [i] }
def Scan.has (scan : Scan) (hostname : Text) : Bool := scan.domainRules.any (·.1 = hostname)

def Scan.visit (scan : Scan) (entry : Text × Nat) : Scan :=
  let rule := trim entry.1
  if skipped rule then scan.keep entry.2
  else if startsWith rule ['@','@'] then scan.keep entry.2
  else
    let parsed := loadAdblockRuleProperties parser rule
    match parsed.hostname with
    | none => scan.keep entry.2
    | some hostname =>
      if hostname ≠ [] ∧ parsed.options.getD [] = [] then
        if scan.has hostname then scan
        else { scan with domainRules := scan.domainRules ++ [(hostname,entry.2)] }
      else scan.keep entry.2

-- parts.slice(j).join('.') for the j from 1 that leave two parts or more.
def parentDomains (hostname : Text) : List Text :=
  let parts := hostname.splitOn '.'
  (List.range' 1 (parts.length-2)).map fun j => ['.'].intercalate (parts.drop j)

def Scan.finish (scan : Scan) : List Nat :=
  scan.keepIndices ++ (scan.domainRules.filter fun entry => !(parentDomains entry.1).any scan.has).map Prod.snd

def removeRedundantRules (rules : List Text) : List Text :=
  let scan := rules.zipIdx.foldl (Scan.visit parser) {}
  (rules.zipIdx.filter fun entry => entry.2 ∈ scan.finish).map Prod.fst

-- /^\|\|[a-z0-9.-]+\/$/i
def endsInSlash (text : Text) : Bool :=
  let body := text.drop 2
  startsWith text ['|','|'] && body.getLast? = some '/' && body.dropLast ≠ [] &&
    body.dropLast.all fun c => c.isAlphanum || c == '.' || c == '-'

def slashToCaret (text : Text) : Text := if endsInSlash text then text.dropLast ++ ['^'] else text
def dropLeadingStar (text : Text) : Text := if startsWith text ['|','|','*'] then '|' :: '|' :: text.drop 3 else text
def dropTrailingStar (text : Text) : Text := if endsWith text ['*','^'] then text.dropLast.dropLast ++ ['^'] else text

def optimizePattern (rule : Text) : Text :=
  let trimmed := trim rule
  if skipped trimmed then rule else dropTrailingStar (dropLeadingStar (slashToCaret trimmed))

def optimizePatterns (rules : List Text) : List Text := rules.map optimizePattern

-- Array.prototype.filter with a Set of the keys already seen.
def firstOfKey (key : α → Text) : List Text → List α → List α
  | _,[] => []
  | seen,x :: rest => if key x ∈ seen then firstOfKey key seen rest else x :: firstOfKey key (seen ++ [key x]) rest

def simplifyRule (rule : Text) : Text :=
  let trimmed := trim rule
  if skipped trimmed then rule
  else if '$' ∉ trimmed then rule
  else
    let parsed := loadAdblockRuleProperties parser trimmed
    match parsed.options with
    | none => rule
    | some options =>
      if options = [] then rule
      else
        let uniqueOptions := firstOfKey optionText [] options
        if uniqueOptions.length ≠ options.length then adblockRuleToString { parsed with options := some uniqueOptions } else rule

def simplifyModifiers (rules : List Text) : List Text := rules.map (simplifyRule parser)

-- With mergeRules off.
def executeSync (rules : List Text) : List Text :=
  simplifyModifiers parser (optimizePatterns (removeRedundantRules parser rules))

end Transformation

-- A separator is no letter, no digit and none of `_-.%`; the texts of hosts
-- hold none. A request goes on after its host with a slash.
def isSeparator (c : Char) : Bool := c.toNat < 128 && !(c.isAlphanum || c == '_' || c == '-' || c == '.' || c == '%')

def HostText (host : Text) : Prop := Plain isSeparator host

def piece (c : Char) : Piece Char := if c = '*' then .any else if c = '^' then .edge else .letter c

-- elsewhere is what the patterns without a host anchor, or with a further bar,
-- block: nothing is said of it.
section Meaning
variable (parser : RuleParser) (elsewhere : Text → Text → Prop)

def PatternBlocks (pattern host : Text) : Prop :=
  if startsWith pattern ['|','|'] ∧ '|' ∉ pattern.drop 2 then Reaches '.' '/' isSeparator ((pattern.drop 2).map piece) host
  else elsewhere pattern host

def RuleBlocks (rule host : Text) : Prop := ∃ pattern, networkPattern parser rule = some pattern ∧ PatternBlocks elsewhere pattern host

def Blocked (rules : List Text) (host : Text) : Prop := ∃ rule ∈ rules, RuleBlocks parser elsewhere rule host

def blocks (rule : Text) : Bool := (networkPattern parser rule).isSome

-- What an exception, a rule with modifiers, a comment or any other line is
-- after the transformation.
def SameRule (before after : Text) : Prop :=
  trim after = trim before ∨
    ∃ pattern exception modifiers kept,
      AGTreeParser.parse parser before = some (.network ⟨pattern,exception,modifiers⟩) ∧
      AGTreeParser.parse parser after = some (.network ⟨pattern,exception,kept⟩) ∧
      ∀ modifier, modifier ∈ kept ↔ modifier ∈ modifiers

def Preserves (rules : List Text) : Prop :=
  (∀ host, HostText host → (Blocked parser elsewhere rules host ↔ Blocked parser elsewhere (executeSync parser rules) host)) ∧
    List.Forall₂ (SameRule parser) (rules.filter fun rule => !blocks parser rule)
      ((executeSync parser rules).filter fun rule => !blocks parser rule)

end Meaning

-- What the transformation relies on in the parser: which rules are exceptions,
-- the shape of modifiers, and that a rule put together from parsed parts
-- parses to these parts.
structure Faithful (parser : RuleParser) : Prop where
  exception : ∀ {text rule}, AGTreeParser.parse parser text = some (.network rule) →
    rule.exception = startsWith (trim text) ['@','@']
  named : ∀ {text rule}, AGTreeParser.parse parser text = some (.network rule) → ∀ modifier ∈ rule.modifiers,
    '=' ∉ modifier.name ∧ modifier.name.head? ≠ some '~' ∧ modifier.value ≠ some []
  printed : ∀ {text rule}, AGTreeParser.parse parser text = some (.network rule) →
    ∀ kept, kept.Sublist rule.modifiers → kept ≠ [] → ∀ props : IAdblockRule, props.pattern = rule.pattern →
      props.whitelist = rule.exception → props.options = some (kept.map optionOf) →
      AGTreeParser.parse parser (adblockRuleToString props) = some (.network { rule with modifiers := kept })

section Conditions
variable (parser : RuleParser) (elsewhere : Text → Text → Prop)

-- The rules that compete for a hostname.
def hostPattern (rule : Text) : Option (Pattern Char) :=
  if skipped (trim rule) || startsWith (trim rule) ['@','@'] then none
  else (networkPattern parser rule).bind fun pattern =>
    (patternHostname pattern).map fun hostname => ⟨pattern.getLast? = some '^',hostname⟩

def hostPatterns (rules : List Text) : List (Pattern Char) := rules.filterMap (hostPattern parser)

-- The first rule of a hostname none of whose parents is listed.
def Kept (rules : List Text) (q : Pattern Char) : Prop :=
  (hostPatterns parser rules).find? (·.host = q.host) = some q ∧
    ∀ parent ∈ parentDomains q.host, ∀ p ∈ hostPatterns parser rules, p.host ≠ parent

-- Rewriting a blocking rule leaves the hosts it blocks, and any other rule as
-- it is.
def Harmless (rule : Text) : Prop :=
  if blocks parser rule then
    blocks parser (optimizePattern rule) = true ∧
      ∀ host, HostText host → (RuleBlocks parser elsewhere (optimizePattern rule) host ↔ RuleBlocks parser elsewhere rule host)
  else trim (optimizePattern rule) = trim rule

end Conditions

section Redundancy
variable (parser : RuleParser)

-- The hostname under which a rule is entered: that of a rule without modifiers
-- that is no exception.
def entered (rule : Text) : Option Text :=
  let parsed := loadAdblockRuleProperties parser (trim rule)
  if skipped (trim rule) || startsWith (trim rule) ['@','@'] then none
  else parsed.hostname.filter fun hostname => hostname ≠ [] ∧ parsed.options.getD [] = []

def named (hostname rule : Text) : Bool := entered parser rule = some hostname

theorem visit_exact (scan : Scan) (rule : Text) (i : Nat) :
    scan.visit parser (rule,i) =
      match entered parser rule with
      | none => scan.keep i
      | some hostname => if scan.has hostname then scan else { scan with domainRules := scan.domainRules ++ [(hostname,i)] } := by
  simp only [Scan.visit,entered]
  by_cases skip : skipped (trim rule) = true
  · simp [skip]
  · by_cases exception : startsWith (trim rule) ['@','@'] = true
    · simp [skip,exception]
    · simp only [skip,exception,Bool.false_eq_true,if_false,Bool.or_self]
      cases (loadAdblockRuleProperties parser (trim rule)).hostname with
      | none => rfl
      | some hostname =>
        by_cases alone : hostname ≠ [] ∧ (loadAdblockRuleProperties parser (trim rule)).options.getD [] = []
        · rw [Option.filter_some,if_pos (decide_eq_true alone)]
          exact if_pos alone
        · rw [Option.filter_some,if_neg (by rw [decide_eq_false alone]; exact Bool.false_ne_true)]
          exact if_neg alone

theorem whitelist_exact (faithful : Faithful parser) (rule : Text) :
    (loadAdblockRuleProperties parser (trim rule)).whitelist = startsWith (trim rule) ['@','@'] := by
  rw [loadAdblockRuleProperties,parse_trim,parse_trim]
  split
  · next parsed => exact faithful.exception parsed
  · rfl

theorem entered_exact (faithful : Faithful parser) (rule : Text) : entered parser rule = (hostPattern parser rule).map (·.host) := by
  have same : networkPattern parser (trim rule) = networkPattern parser rule := by simp [networkPattern]
  have properties := properties_exact parser (trim rule)
  simp only [same,whitelist_exact parser faithful] at properties
  unfold entered hostPattern
  by_cases outside : (skipped (trim rule) || startsWith (trim rule) ['@','@']) = true
  · simp only [outside,if_true,Option.map_none]
  · have exception : startsWith (trim rule) ['@','@'] = false := by
      cases starts : startsWith (trim rule) ['@','@'] with
      | false => rfl
      | true => exact absurd (by rw [starts,Bool.or_true]) outside
    have hosts (pattern : Text) : ((patternHostname pattern).map fun hostname =>
        Pattern.mk (decide (pattern.getLast? = some '^')) hostname).map (·.host) = patternHostname pattern := by
      rw [Option.map_map]
      exact congrFun Option.map_id _
    simp only [exception,true_and] at properties
    rw [if_neg outside,if_neg outside,Option.map_bind]
    apply Option.ext
    intro hostname
    simp only [Function.comp_def,hosts,← properties hostname,Option.filter_eq_some_iff,decide_eq_true_eq]
    constructor
    · rintro ⟨own,-,plain⟩
      exact ⟨own,plain⟩
    · rintro ⟨own,plain⟩
      have read : (networkPattern parser rule).bind patternHostname = some hostname := (properties hostname).mp ⟨own,plain⟩
      obtain ⟨pattern,-,host⟩ := Option.bind_eq_some_iff.mp read
      exact ⟨own,(patternHostname_exact.mp host).1.1,plain⟩

-- The table holds the index of each hostname's first rule; all rules without a
-- hostname are kept.
structure Scanned (seen : List Text) (scan : Scan) : Prop where
  table : ∀ hostname i, (hostname,i) ∈ scan.domainRules ↔ seen.findIdx? (named parser hostname) = some i
  others : ∀ i, i ∈ scan.keepIndices ↔ ∃ rule, seen[i]? = some rule ∧ entered parser rule = none

theorem scanned_has (scanned : Scanned parser seen scan) (hostname : Text) :
    scan.has hostname = true ↔ ∃ rule ∈ seen, named parser hostname rule = true := by
  rw [Scan.has,List.any_eq_true]
  constructor
  · intro given
    obtain ⟨⟨other,i⟩,member,same⟩ := given
    obtain rfl : other = hostname := by simpa using same
    have found := (scanned.table other i).mp member
    obtain ⟨inside,meets,-⟩ := List.findIdx?_eq_some_iff_getElem.mp found
    exact ⟨_,List.getElem_mem inside,meets⟩
  · intro given
    obtain ⟨rule,member,meets⟩ := given
    obtain ⟨i,found⟩ := Option.isSome_iff_exists.mp (List.findIdx?_isSome.trans (List.any_eq_true.mpr ⟨rule,member,meets⟩))
    exact ⟨(hostname,i),(scanned.table hostname i).mpr found,by simp⟩

theorem getElem_concat (seen : List Text) (rule : Text) (i : Nat) (p : Text → Prop) :
    (∃ r, (seen ++ [rule])[i]? = some r ∧ p r) ↔ (∃ r, seen[i]? = some r ∧ p r) ∨ i = seen.length ∧ p rule := by
  rcases Nat.lt_trichotomy i seen.length with inside | rfl | outside
  · have other : i ≠ seen.length := Nat.ne_of_lt inside
    simp [List.getElem?_append_left inside,other]
  · simp
  · have absent : (seen ++ [rule])[i]? = none := List.getElem?_eq_none (by simp; omega)
    have before : seen[i]? = none := List.getElem?_eq_none (by omega)
    have other : i ≠ seen.length := Nat.ne_of_gt outside
    simp [absent,before,other]

theorem findIdx_concat (seen : List Text) (rule : Text) (p : Text → Bool) (i : Nat) :
    (seen ++ [rule]).findIdx? p = some i ↔
      seen.findIdx? p = some i ∨ (∀ r ∈ seen, p r = false) ∧ i = seen.length ∧ p rule = true := by
  rw [List.findIdx?_append]
  cases found : seen.findIdx? p with
  | some j =>
    obtain ⟨inside,meets,-⟩ := List.findIdx?_eq_some_iff_getElem.mp found
    have never : ¬ ∀ r ∈ seen, p r = false := by
      intro all
      have no := all _ (List.getElem_mem inside)
      rw [meets] at no
      cases no
    simp [never]
  | none =>
    have all : ∀ r ∈ seen, p r = false := List.findIdx?_eq_none_iff.mp found
    by_cases meets : p rule = true
    · have single : [rule].findIdx? p = some 0 := by simp [meets]
      have flip : some (0+seen.length) = some i ↔ i = seen.length := by
        rw [Nat.zero_add,Option.some.injEq]
        exact eq_comm
      rw [single,Option.none_or,Option.map_some,flip]
      simp only [reduceCtorEq,false_or,meets,and_true]
      exact ⟨fun last => ⟨all,last⟩,And.right⟩
    · simp [meets]

theorem scanned_step (scanned : Scanned parser seen scan) (rule : Text) :
    Scanned parser (seen ++ [rule]) (scan.visit parser (rule,seen.length)) := by
  rw [visit_exact]
  cases own : entered parser rule with
  | none =>
    refine ⟨?_,?_⟩
    · intro hostname i
      rw [findIdx_concat,← scanned.table]
      simp [Scan.keep,named,own]
    · intro i
      rw [getElem_concat,← scanned.others]
      simp [Scan.keep,own]
  | some host =>
    have meets (hostname : Text) : named parser hostname rule = true ↔ host = hostname := by simp [named,own]
    by_cases has : scan.has host = true
    · obtain ⟨early,member,found⟩ := (scanned_has parser scanned host).mp has
      simp only [has,if_true]
      refine ⟨?_,?_⟩
      · intro hostname i
        rw [findIdx_concat,← scanned.table,meets]
        constructor
        · exact .inl
        · rintro (known | ⟨none,-,rfl⟩)
          · exact known
          · have no := none early member
            rw [found] at no
            cases no
      · intro i
        rw [getElem_concat,← scanned.others]
        simp [own]
    · have fresh : ∀ r ∈ seen, named parser host r = false := by
        intro r member
        by_contra found
        exact has ((scanned_has parser scanned host).mpr ⟨r,member,by simpa using found⟩)
      simp only [has,Bool.false_eq_true,if_false]
      refine ⟨?_,?_⟩
      · intro hostname i
        rw [findIdx_concat,← scanned.table,meets,List.mem_append,List.mem_singleton,Prod.mk.injEq]
        constructor
        · rintro (known | ⟨rfl,rfl⟩)
          · exact .inl known
          · exact .inr ⟨fresh,rfl,rfl⟩
        · rintro (known | ⟨-,rfl,rfl⟩)
          · exact .inl known
          · exact .inr ⟨rfl,rfl⟩
      · intro i
        rw [getElem_concat,← scanned.others]
        simp [own]

theorem scanned_run (scanned : Scanned parser seen scan) (more : List Text) :
    Scanned parser (seen ++ more) ((more.zipIdx seen.length).foldl (Scan.visit parser) scan) := by
  induction more generalizing seen scan with
  | nil => simpa using scanned
  | cons rule rest ih =>
    have step := ih (scanned_step parser scanned rule)
    rw [List.append_assoc,List.singleton_append,List.length_append] at step
    exact step

theorem scan_exact (rules : List Text) :
    Scanned parser rules (rules.zipIdx.foldl (Scan.visit parser) {}) := by
  have empty : Scanned parser [] {} := ⟨by simp,by simp⟩
  have whole := scanned_run parser empty rules
  rwa [List.nil_append] at whole

-- What the redundancy step keeps: the rules without a hostname, and the first
-- rule of each hostname none of whose parents is listed.
theorem finish_exact (scanned : Scanned parser rules scan) (i : Nat) :
    i ∈ scan.finish ↔ (∃ rule, rules[i]? = some rule ∧ entered parser rule = none) ∨
      ∃ hostname, rules.findIdx? (named parser hostname) = some i ∧
        ∀ parent ∈ parentDomains hostname, ∀ rule ∈ rules, entered parser rule ≠ some parent := by
  have top (hostname : Text) : (!(parentDomains hostname).any scan.has) = true ↔
      ∀ parent ∈ parentDomains hostname, ∀ rule ∈ rules, entered parser rule ≠ some parent := by
    rw [Bool.not_eq_true',List.any_eq_false]
    simp only [scanned_has parser scanned,named,decide_eq_true_eq,not_exists,not_and,ne_eq]
  rw [Scan.finish,List.mem_append,scanned.others,List.mem_map]
  constructor
  · rintro (other | ⟨⟨hostname,_⟩,member,rfl⟩)
    · exact .inl other
    · obtain ⟨known,free⟩ := List.mem_filter.mp member
      exact .inr ⟨hostname,(scanned.table hostname _).mp known,(top hostname).mp free⟩
  · rintro (other | ⟨hostname,found,free⟩)
    · exact .inl other
    · exact .inr ⟨(hostname,i),List.mem_filter.mpr ⟨(scanned.table hostname i).mpr found,(top hostname).mpr free⟩,rfl⟩

theorem mem_result (scan : Scan) (rules : List Text) :
    rule ∈ (rules.zipIdx.filter fun entry => entry.2 ∈ scan.finish).map Prod.fst ↔ ∃ i, rules[i]? = some rule ∧ i ∈ scan.finish := by
  simp only [List.mem_map,List.mem_filter,decide_eq_true_eq]
  constructor
  · intro given
    obtain ⟨⟨_,i⟩,⟨member,kept⟩,rfl⟩ := given
    exact ⟨i,List.mem_zipIdx_iff_getElem?.mp member,kept⟩
  · intro given
    obtain ⟨i,member,kept⟩ := given
    exact ⟨(rule,i),⟨List.mem_zipIdx_iff_getElem?.mpr member,kept⟩,rfl⟩

theorem redundant_subset (rules : List Text) (member : rule ∈ removeRedundantRules parser rules) : rule ∈ rules := by
  obtain ⟨i,found,-⟩ := (mem_result _ rules).mp member
  exact List.mem_of_getElem? found

section Competing
variable {parser}

theorem entered_none (faithful : Faithful parser) : entered parser rule = none ↔ hostPattern parser rule = none := by
  rw [entered_exact parser faithful,Option.map_eq_none_iff]

theorem named_exact (faithful : Faithful parser) (hostname rule : Text) :
    named parser hostname rule = (hostPattern parser rule).any (·.host = hostname) := by
  rw [named,entered_exact parser faithful]
  cases hostPattern parser rule <;> simp

theorem unlisted_exact (faithful : Faithful parser) (rules : List Text) (parent : Text) :
    (∀ rule ∈ rules, entered parser rule ≠ some parent) ↔ ∀ p ∈ hostPatterns parser rules, p.host ≠ parent := by
  simp only [entered_exact parser faithful,hostPatterns,List.mem_filterMap,ne_eq,Option.map_eq_some_iff,not_exists,not_and]
  constructor
  · intro free p given
    obtain ⟨rule,member,own⟩ := given
    exact free rule member p own
  · intro free rule member p own
    exact free p ⟨rule,member,own⟩

end Competing

theorem redundant_others (faithful : Faithful parser) (member : rule ∈ rules) (own : hostPattern parser rule = none) :
    rule ∈ removeRedundantRules parser rules := by
  obtain ⟨i,found⟩ := List.getElem?_of_mem member
  exact (mem_result _ rules).mpr ⟨i,found,(finish_exact parser (scan_exact parser rules) i).mpr (.inl ⟨rule,found,(entered_none faithful).mpr own⟩)⟩

theorem redundant_kept (faithful : Faithful parser) (kept : Kept parser rules q) :
    ∃ rule ∈ removeRedundantRules parser rules, hostPattern parser rule = some q := by
  obtain ⟨first,top⟩ := kept
  rw [hostPatterns,List.find?_filterMap] at first
  obtain ⟨rule,found,own⟩ := Option.bind_eq_some_iff.mp first
  have index : rules.find? (named parser q.host) = some rule := by
    rw [funext (named_exact faithful q.host)]
    exact found
  rw [List.find?_eq_bind_findIdx?_getElem?] at index
  obtain ⟨i,place,entry⟩ := Option.bind_eq_some_iff.mp index
  have free : ∀ parent ∈ parentDomains q.host, ∀ rule ∈ rules, entered parser rule ≠ some parent := fun parent above =>
    (unlisted_exact faithful rules parent).mpr (top parent above)
  have finished := (finish_exact parser (scan_exact parser rules) i).mpr (.inr ⟨q.host,place,free⟩)
  exact ⟨rule,(mem_result _ rules).mpr ⟨i,entry,finished⟩,own⟩

-- The order and the number of the rules without a hostname are kept.
theorem redundant_filter (faithful : Faithful parser) (p : Text → Bool) (other : ∀ rule ∈ rules, p rule = true → hostPattern parser rule = none) :
    (removeRedundantRules parser rules).filter p = rules.filter p := by
  have scanned := scan_exact parser rules
  have whole : rules.zipIdx.map Prod.fst = rules := List.zipIdx_map_fst 0 rules
  have pairs : ((rules.zipIdx.filter fun entry => entry.2 ∈ (rules.zipIdx.foldl (Scan.visit parser) {}).finish).filter (p ∘ Prod.fst)) =
      rules.zipIdx.filter (p ∘ Prod.fst) := by
    rw [List.filter_filter]
    apply List.filter_congr
    rintro ⟨rule,i⟩ member
    have found := List.mem_zipIdx_iff_getElem?.mp member
    by_cases holds : p rule = true
    · have finished := (finish_exact parser scanned i).mpr (.inl ⟨rule,found,(entered_none faithful).mpr (other rule (List.mem_of_getElem? found) holds)⟩)
      simp [holds,finished]
    · simp [holds]
  rw [removeRedundantRules,List.filter_map,pairs,← List.filter_map,whole]

end Redundancy

section Hosts
variable (parser : RuleParser) (elsewhere : Text → Text → Prop)

theorem hostname_plain (valid : Hostname hostname) :
    HostText hostname ∧ hostname.map piece = hostname.map .letter ∧ '|' ∉ hostname := by
  have char (c : Char) (inside : isHostnameChar c = true) : isSeparator c = false ∧ piece c = .letter c ∧ c ≠ '|' := by
    have star : isHostnameChar '*' = false := by decide
    have caret : isHostnameChar '^' = false := by decide
    have bar : isHostnameChar '|' = false := by decide
    have differs (d : Char) (outside : isHostnameChar d = false) : c ≠ d := by
      rintro rfl
      rw [inside] at outside
      cases outside
    refine ⟨?_,?_,differs '|' bar⟩
    · simp only [isHostnameChar,Bool.or_eq_true,beq_iff_eq] at inside
      rcases inside with ((lower | digit) | rfl) | rfl
      · simp [isSeparator,Char.isAlphanum,Char.isAlpha,lower]
      · simp [isSeparator,Char.isAlphanum,digit]
      · decide
      · decide
    · rw [piece,if_neg (differs '*' star),if_neg (differs '^' caret)]
  refine ⟨fun c member => (char c (valid.2 c member)).1,?_,?_⟩
  · exact List.map_congr_left fun c member => (char c (valid.2 c member)).2.1
  · intro member
    exact (char '|' (valid.2 '|' member)).2.2 rfl

theorem slash_separator : isSeparator '/' = true := by decide

-- The two forms of a hostname rule block what the library says of them.
theorem blocking_blocks (valid : Hostname hostname) (text : HostText host) :
    PatternBlocks elsewhere (blocking hostname) host ↔ Pattern.Blocks '.' ⟨true,hostname⟩ host := by
  obtain ⟨own,letters,bars⟩ := hostname_plain valid
  have shape : startsWith (blocking hostname) ['|','|'] = true ∧ '|' ∉ (blocking hostname).drop 2 := by simp [bars]
  have caret : piece '^' = .edge := by decide
  rw [PatternBlocks,if_pos shape,blocking_body,List.map_append,letters,List.map_singleton,caret]
  exact reaches_closed '.' '/' isSeparator slash_separator own text

theorem anchored_blocks (valid : Hostname hostname) :
    PatternBlocks elsewhere (anchored hostname) host ↔ Pattern.Blocks '.' ⟨false,hostname⟩ host := by
  obtain ⟨own,letters,bars⟩ := hostname_plain valid
  have shape : startsWith (anchored hostname) ['|','|'] = true ∧ '|' ∉ (anchored hostname).drop 2 := by simp [bars]
  rw [PatternBlocks,if_pos shape,anchored_body,letters]
  exact reaches_open '.' '/' isSeparator slash_separator own

theorem slash_blocks (valid : Hostname hostname) (text : HostText host) :
    PatternBlocks elsewhere (anchored hostname ++ ['/']) host ↔ PatternBlocks elsewhere (blocking hostname) host := by
  obtain ⟨own,letters,bars⟩ := hostname_plain valid
  have body : (anchored hostname ++ ['/']).drop 2 = hostname ++ ['/'] := rfl
  have shape : startsWith (anchored hostname ++ ['/']) ['|','|'] = true ∧ '|' ∉ (anchored hostname ++ ['/']).drop 2 := by
    rw [body]
    simp [bars,anchored,startsWith]
  have slash : piece '/' = .letter '/' := by decide
  rw [blocking_blocks elsewhere valid text,PatternBlocks,if_pos shape,body,List.map_append,letters,List.map_singleton,slash]
  exact reaches_stop '.' '/' isSeparator slash_separator own text

theorem hostPattern_blocks (own : hostPattern parser rule = some q) (text : HostText host) :
    RuleBlocks parser elsewhere rule host ↔ q.Blocks '.' host := by
  unfold hostPattern at own
  split at own
  · cases own
  · obtain ⟨pattern,network,read⟩ := Option.bind_eq_some_iff.mp own
    obtain ⟨hostname,found,rfl⟩ := Option.map_eq_some_iff.mp read
    have only : RuleBlocks parser elsewhere rule host ↔ PatternBlocks elsewhere pattern host := by simp [RuleBlocks,network]
    rw [only]
    obtain ⟨valid,rfl | rfl⟩ := patternHostname_exact.mp found
    · have last : (anchored hostname).getLast? ≠ some '^' := by
        intro same
        have member : '^' ∈ anchored hostname := List.mem_of_getLast? same
        have inside : '^' ∈ hostname := by simpa [anchored] using member
        exact absurd (valid.2 '^' inside) (by decide)
      rw [decide_eq_false last]
      exact anchored_blocks elsewhere valid
    · have last : (blocking hostname).getLast? = some '^' := List.getLast?_concat
      rw [decide_eq_true last]
      exact blocking_blocks elsewhere valid text

end Hosts

section Modifiers

theorem firstOfKey_map (key : β → Text) (f : α → β) (seen : List Text) (xs : List α) :
    firstOfKey key seen (xs.map f) = (firstOfKey (key ∘ f) seen xs).map f := by
  induction xs generalizing seen with
  | nil => rfl
  | cons x rest ih =>
    rw [List.map_cons,firstOfKey,firstOfKey,Function.comp_apply]
    split
    · exact ih seen
    · rw [ih,List.map_cons]

theorem firstOfKey_sublist (key : α → Text) (seen : List Text) (xs : List α) : (firstOfKey key seen xs).Sublist xs := by
  induction xs generalizing seen with
  | nil => exact List.Sublist.refl []
  | cons x rest ih =>
    unfold firstOfKey
    split
    · exact (ih seen).cons x
    · exact (ih _).cons_cons x

theorem mem_firstOfKey (key : α → Text) (seen : List Text) (xs : List α) (inj : ∀ x ∈ xs, ∀ y ∈ xs, key x = key y → x = y) :
    x ∈ firstOfKey key seen xs ↔ x ∈ xs ∧ key x ∉ seen := by
  induction xs generalizing seen with
  | nil => simp [firstOfKey]
  | cons y rest ih =>
    have later := fun seen => ih seen fun a ha b hb => inj a (List.mem_cons_of_mem y ha) b (List.mem_cons_of_mem y hb)
    unfold firstOfKey
    split
    · next known =>
      rw [later,List.mem_cons]
      constructor
      · intro given
        obtain ⟨member,fresh⟩ := given
        exact ⟨.inr member,fresh⟩
      · rintro ⟨rfl | member,fresh⟩
        · exact absurd known fresh
        · exact ⟨member,fresh⟩
    · next known =>
      rw [List.mem_cons,later,List.mem_cons,List.mem_append,List.mem_singleton]
      constructor
      · rintro (rfl | ⟨member,fresh⟩)
        · exact ⟨.inl rfl,known⟩
        · exact ⟨.inr member,fun old => fresh (.inl old)⟩
      · rintro ⟨rfl | member,fresh⟩
        · exact .inl rfl
        · by_cases same : x = y
          · exact .inl same
          · refine .inr ⟨member,?_⟩
            rintro (old | key)
            · exact fresh old
            · exact same (inj x (List.mem_cons_of_mem y member) y List.mem_cons_self key)

theorem optionText_value (given : value ≠ []) : optionText ⟨name,some value⟩ = name ++ '=' :: value := by
  cases value with
  | nil => exact absurd rfl given
  | cons => rfl

theorem optionText_inj (one : '=' ∉ a.name ∧ a.value ≠ some []) (two : '=' ∉ b.name ∧ b.value ≠ some [])
    (same : optionText a = optionText b) : a = b := by
  obtain ⟨name,value⟩ := a
  obtain ⟨other,second⟩ := b
  cases value with
  | none =>
    cases second with
    | none => exact congrArg (IRuleModifier.mk · none) same
    | some w =>
      rw [optionText_value fun empty => two.2 (congrArg some empty)] at same
      have inside : '=' ∈ name := by
        change name = _ at same
        rw [same]
        simp
      exact absurd inside one.1
  | some v =>
    rw [optionText_value fun empty => one.2 (congrArg some empty)] at same
    cases second with
    | none =>
      have inside : '=' ∈ other := by
        change _ = other at same
        rw [← same]
        simp
      exact absurd inside two.1
    | some w =>
      rw [optionText_value fun empty => two.2 (congrArg some empty)] at same
      obtain ⟨rfl,rfl⟩ := mark_unique one.1 two.1 same
      rfl

theorem optionOf_inj (one : a.name.head? ≠ some '~') (two : b.name.head? ≠ some '~') (same : optionOf a = optionOf b) : a = b := by
  obtain ⟨name,value,exception⟩ := a
  obtain ⟨other,second,flag⟩ := b
  obtain ⟨names,rfl⟩ := (IRuleModifier.mk.injEq ..).mp same
  cases exception <;> cases flag <;> simp only [Bool.false_eq_true,if_false,if_true] at names one two
  · rw [names]
  · rw [names] at one
    exact absurd rfl one
  · rw [← names] at two
    exact absurd rfl two
  · rw [(List.cons.inj names).2]

end Modifiers

section Preservation
variable (parser : RuleParser) (elsewhere : Text → Text → Prop)

theorem parse_same (same : trim after = trim before) : AGTreeParser.parse parser after = AGTreeParser.parse parser before := by
  rw [AGTreeParser.parse,AGTreeParser.parse,same]

theorem blocks_exact (rule : Text) :
    blocks parser rule = true ↔ ∃ pattern, AGTreeParser.parse parser rule = some (.network { pattern }) := by
  rw [blocks,networkPattern]
  cases AGTreeParser.parse parser rule with
  | none => simp
  | some ast =>
    cases ast with
    | network network =>
      obtain ⟨pattern,exception,modifiers⟩ := network
      cases exception <;> cases modifiers <;> simp
    | comment => simp
    | host => simp
    | other => simp

theorem simplify_plain (rule : Text) (plain : (loadAdblockRuleProperties parser (trim rule)).options = none) :
    simplifyRule parser rule = rule := by
  simp [simplifyRule,plain]

theorem simplify_blocking (rule : Text) (blocking : blocks parser rule = true) : simplifyRule parser rule = rule := by
  obtain ⟨pattern,parsed⟩ := (blocks_exact parser rule).mp blocking
  exact simplify_plain parser rule (by simp [loadAdblockRuleProperties,parsed])

-- A rule that is put together again keeps the first of each modifier.
theorem simplify_network (faithful : Faithful parser) (parsed : AGTreeParser.parse parser rule = some (.network network)) :
    simplifyRule parser rule = rule ∨ ∃ kept, kept ≠ [] ∧ (∀ modifier, modifier ∈ kept ↔ modifier ∈ network.modifiers) ∧
      AGTreeParser.parse parser (simplifyRule parser rule) = some (.network { network with modifiers := kept }) := by
  have properties : loadAdblockRuleProperties parser (trim rule) =
      { ruleText := trim rule, pattern := network.pattern, whitelist := network.exception
        options := if network.modifiers = [] then none else some (network.modifiers.map optionOf)
        hostname := patternHostname network.pattern } := by
    simp [loadAdblockRuleProperties,parsed]
  rw [simplifyRule,properties]
  by_cases none : network.modifiers = []
  · left
    simp [none]
  · let kept := firstOfKey (optionText ∘ optionOf) [] network.modifiers
    have unique : firstOfKey optionText [] (network.modifiers.map optionOf) = kept.map optionOf := firstOfKey_map _ _ _ _
    have inj : ∀ a ∈ network.modifiers, ∀ b ∈ network.modifiers, (optionText ∘ optionOf) a = (optionText ∘ optionOf) b → a = b := by
      intro a ha b hb same
      obtain ⟨aName,aTilde,aValue⟩ := faithful.named parsed a ha
      obtain ⟨bName,bTilde,bValue⟩ := faithful.named parsed b hb
      have equals (m : Modifier) (clean : '=' ∉ m.name) : '=' ∉ (optionOf m).name := by
        unfold optionOf
        split
        · simp [clean]
        · exact clean
      exact optionOf_inj aTilde bTilde (optionText_inj ⟨equals a aName,aValue⟩ ⟨equals b bName,bValue⟩ same)
    have members : ∀ modifier, modifier ∈ kept ↔ modifier ∈ network.modifiers := by
      intro modifier
      rw [mem_firstOfKey _ _ _ inj]
      simp
    have some_ : kept ≠ [] := by
      obtain ⟨first,rest,shape⟩ := List.exists_cons_of_ne_nil none
      have inside := (members first).mpr (by rw [shape]; simp)
      exact List.ne_nil_of_mem inside
    have options : network.modifiers.map optionOf ≠ [] := by simpa using none
    simp only [none,options,if_false,unique]
    split
    · exact .inl rfl
    · split
      · exact .inl rfl
      · split
        · right
          refine ⟨kept,some_,members,?_⟩
          exact faithful.printed parsed kept (firstOfKey_sublist _ _ _) some_ _ rfl rfl rfl
        · exact .inl rfl

theorem simplify_others (faithful : Faithful parser) (other : blocks parser rule = false) (same : trim after = trim rule) :
    SameRule parser rule (simplifyRule parser after) ∧ blocks parser (simplifyRule parser after) = false := by
  have parse := parse_same parser same
  have still : blocks parser after = false := by rw [← other,blocks,blocks,networkPattern,networkPattern,parse]
  by_cases unchanged : simplifyRule parser after = after
  · rw [unchanged]
    exact ⟨.inl same,still⟩
  · have plain := simplify_plain parser after
    cases parsed : AGTreeParser.parse parser after with
    | none => exact absurd (plain (by simp [loadAdblockRuleProperties,parsed])) unchanged
    | some ast =>
      cases ast with
      | network network =>
        rcases simplify_network parser faithful parsed with equal | ⟨kept,some_,members,printed⟩
        · exact absurd equal unchanged
        · obtain ⟨pattern,exception,modifiers⟩ := network
          refine ⟨.inr ⟨pattern,exception,modifiers,kept,parse.symm.trans parsed,printed,members⟩,?_⟩
          rw [Bool.eq_false_iff,ne_eq,blocks_exact,printed]
          intro given
          obtain ⟨p,equal⟩ := given
          cases equal
          exact some_ rfl
      | comment => exact absurd (plain (by simp [loadAdblockRuleProperties,parsed])) unchanged
      | host => exact absurd (plain (by simp [loadAdblockRuleProperties,parsed])) unchanged
      | other => exact absurd (plain (by simp [loadAdblockRuleProperties,parsed])) unchanged

-- The last two steps, rule by rule.
def rewrite (rule : Text) : Text := simplifyRule parser (optimizePattern rule)

theorem executeSync_exact (rules : List Text) :
    executeSync parser rules = (removeRedundantRules parser rules).map (rewrite parser) := by
  rw [executeSync,simplifyModifiers,optimizePatterns,List.map_map]
  rfl

theorem rewrite_blocking (harmless : Harmless parser elsewhere rule) (blocking : blocks parser rule = true) :
    blocks parser (rewrite parser rule) = true ∧ ∀ host, HostText host →
      (RuleBlocks parser elsewhere (rewrite parser rule) host ↔ RuleBlocks parser elsewhere rule host) := by
  rw [Harmless,if_pos blocking] at harmless
  rw [rewrite,simplify_blocking parser _ harmless.1]
  exact harmless

theorem rewrite_others (faithful : Faithful parser) (harmless : Harmless parser elsewhere rule) (other : blocks parser rule = false) :
    SameRule parser rule (rewrite parser rule) ∧ blocks parser (rewrite parser rule) = false := by
  rw [Harmless,if_neg (Bool.eq_false_iff.mp other)] at harmless
  exact simplify_others parser faithful other harmless

theorem rewrite_kind (faithful : Faithful parser) (harmless : Harmless parser elsewhere rule) :
    blocks parser (rewrite parser rule) = blocks parser rule := by
  cases kind : blocks parser rule with
  | true => exact (rewrite_blocking parser elsewhere harmless kind).1
  | false => exact (rewrite_others parser elsewhere faithful harmless kind).2

theorem hostPattern_kind (own : hostPattern parser rule = some q) : blocks parser rule = true := by
  unfold hostPattern at own
  split at own
  · cases own
  · obtain ⟨pattern,network,-⟩ := Option.bind_eq_some_iff.mp own
    rw [blocks,network]
    rfl

theorem optimizer_preserves (faithful : Faithful parser) (rules : List Text)
    (harmless : ∀ rule ∈ rules, Harmless parser elsewhere rule)
    (covered : ∀ p ∈ hostPatterns parser rules, ∃ q, Kept parser rules q ∧ q.Above '.' p) :
    Preserves parser elsewhere rules := by
  have same (rule : Text) (member : rule ∈ rules) (host : Text) (text : HostText host) :
      RuleBlocks parser elsewhere (rewrite parser rule) host ↔ RuleBlocks parser elsewhere rule host := by
    cases kind : blocks parser rule with
    | true => exact (rewrite_blocking parser elsewhere (harmless rule member) kind).2 host text
    | false =>
      have still := rewrite_kind parser elsewhere faithful (harmless rule member)
      rw [kind] at still
      have never (r : Text) (no : blocks parser r = false) : ¬ RuleBlocks parser elsewhere r host := by
        intro given
        obtain ⟨pattern,network,-⟩ := given
        rw [blocks,network] at no
        cases no
      exact iff_of_false (never _ still) (never _ kind)
  rw [Preserves,executeSync_exact]
  refine ⟨?_,?_⟩
  · intro host text
    constructor
    · intro given
      obtain ⟨rule,member,blocked⟩ := given
      obtain ⟨kept,stays,meets⟩ : ∃ kept ∈ removeRedundantRules parser rules, RuleBlocks parser elsewhere kept host := by
        cases own : hostPattern parser rule with
        | none => exact ⟨rule,redundant_others parser faithful member own,blocked⟩
        | some p =>
          obtain ⟨q,kept,above⟩ := covered p (List.mem_filterMap.mpr ⟨rule,member,own⟩)
          obtain ⟨upper,stays,first⟩ := redundant_kept parser faithful kept
          have low := (hostPattern_blocks parser elsewhere own text).mp blocked
          exact ⟨upper,stays,(hostPattern_blocks parser elsewhere first text).mpr (above_blocks '.' q p above low)⟩
      exact ⟨_,List.mem_map_of_mem stays,(same kept (redundant_subset parser rules stays) host text).mpr meets⟩
    · intro given
      obtain ⟨_,member,blocked⟩ := given
      obtain ⟨rule,stays,rfl⟩ := List.mem_map.mp member
      have inside := redundant_subset parser rules stays
      exact ⟨rule,inside,(same rule inside host text).mp blocked⟩
  · have kinds : ((removeRedundantRules parser rules).map (rewrite parser)).filter (fun rule => !blocks parser rule) =
        (rules.filter fun rule => !blocks parser rule).map (rewrite parser) := by
      have other : ∀ rule ∈ rules, (!blocks parser rule) = true → hostPattern parser rule = none := by
        intro rule _ kind
        cases own : hostPattern parser rule with
        | none => rfl
        | some q =>
          rw [hostPattern_kind parser own] at kind
          cases kind
      rw [List.filter_map,← redundant_filter parser faithful _ other]
      congr 1
      apply List.filter_congr
      intro rule stays
      rw [Function.comp_apply,rewrite_kind parser elsewhere faithful (harmless rule (redundant_subset parser rules stays))]
    rw [kinds,List.forall₂_map_right_iff,List.forall₂_same]
    intro rule member
    obtain ⟨inside,kind⟩ := List.mem_filter.mp member
    exact (rewrite_others parser elsewhere faithful (harmless rule inside) (by simpa using kind)).1

end Preservation

section Coverage
variable (parser : RuleParser) (elsewhere : Text → Text → Prop)

theorem harmless_same (same : trim (optimizePattern rule) = trim rule) : Harmless parser elsewhere rule := by
  have parse := parse_same parser same
  have network : networkPattern parser (optimizePattern rule) = networkPattern parser rule := by
    rw [networkPattern,networkPattern,parse]
  unfold Harmless
  split
  · next kind =>
    refine ⟨by rw [blocks,network]; exact kind,?_⟩
    intro host _
    rw [RuleBlocks,RuleBlocks,network]
  · exact same

theorem optimizePattern_slash (valid : Hostname hostname) : optimizePattern (anchored hostname ++ ['/']) = blocking hostname := by
  have whole : trim (anchored hostname ++ ['/']) = anchored hostname ++ ['/'] := by
    apply trim_trimmed
    have front : (anchored hostname ++ ['/']).head? = some '|' := rfl
    have last : (anchored hostname ++ ['/']).getLast? = some '/' := List.getLast?_concat
    apply trimmed_ends
    · rw [front]
      decide
    · rw [last]
      decide
  have skip : skipped (anchored hostname ++ ['/']) = false := rfl
  have body : (anchored hostname ++ ['/']).drop 2 = hostname ++ ['/'] := rfl
  have bars : startsWith (anchored hostname ++ ['/']) ['|','|'] = true := by simp [anchored,startsWith]
  have chars : (hostname.all fun c => c.isAlphanum || c == '.' || c == '-') = true := by
    rw [List.all_eq_true]
    intro c member
    have inside := valid.2 c member
    simp only [isHostnameChar,Bool.or_eq_true,beq_iff_eq] at inside
    rcases inside with ((lower | digit) | rfl) | rfl
    · simp [Char.isAlphanum,Char.isAlpha,lower]
    · simp [Char.isAlphanum,digit]
    · decide
    · decide
  have slash : slashToCaret (anchored hostname ++ ['/']) = blocking hostname := by
    have ends : endsInSlash (anchored hostname ++ ['/']) = true := by
      simp [endsInSlash,body,bars,chars,valid.1]
    rw [slashToCaret,if_pos ends,List.dropLast_concat]
    rfl
  have star (c : Char) (member : c ∈ hostname) : c ≠ '*' := by
    rintro rfl
    exact absurd (valid.2 '*' member) (by decide)
  have leading : dropLeadingStar (blocking hostname) = blocking hostname := by
    apply if_neg
    intro starts
    obtain ⟨tail,same⟩ := startsWith_iff.mp starts
    obtain ⟨c,rest,rfl⟩ := List.exists_cons_of_ne_nil valid.1
    have first : c = '*' := (List.cons.inj (List.cons.inj (List.cons.inj same).2).2).1
    exact star c List.mem_cons_self first
  have trailing : dropTrailingStar (blocking hostname) = blocking hostname := by
    apply if_neg
    intro ends
    obtain ⟨front,same⟩ := List.isSuffixOf_iff_suffix.mp ends
    have cut : front ++ ['*'] = anchored hostname := by
      have both := congrArg List.dropLast same
      simpa [blocking,List.dropLast_append] using both
    have member : '*' ∈ anchored hostname := by rw [← cut]; simp
    have inside : '*' ∈ hostname := by simpa [anchored] using member
    exact star '*' inside rfl
  rw [optimizePattern,whole,skip,if_neg Bool.false_ne_true,slash,leading,trailing]

-- A closing slash becomes a caret without effect: a slash follows the host of
-- every request.
theorem harmless_slash (valid : Hostname hostname)
    (before : AGTreeParser.parse parser (anchored hostname ++ ['/']) = some (.network { pattern := anchored hostname ++ ['/'] }))
    (after : AGTreeParser.parse parser (blocking hostname) = some (.network { pattern := blocking hostname })) :
    Harmless parser elsewhere (anchored hostname ++ ['/']) := by
  have kind (text : Text) (parsed : AGTreeParser.parse parser text = some (.network { pattern := text })) :
      networkPattern parser text = some text := by simp [networkPattern,parsed]
  rw [Harmless,optimizePattern_slash valid,if_pos (by rw [blocks,kind _ before]; rfl)]
  refine ⟨by rw [blocks,kind _ after]; rfl,?_⟩
  intro host text
  simp only [RuleBlocks,kind _ before,kind _ after,Option.some.injEq,exists_eq_left']
  exact (slash_blocks elsewhere valid text).symm

theorem parentDomains_within (above : part ∈ parentDomains hostname) : Within '.' part hostname ∧ part.length < hostname.length := by
  obtain ⟨j,range,rfl⟩ := List.mem_map.mp above
  obtain ⟨low,high⟩ := List.mem_range'_1.mp range
  have inside : j < (hostname.splitOn '.').length := by omega
  have whole : ['.'].intercalate (hostname.splitOn '.') = hostname := List.intercalate_splitOn '.'
  obtain ⟨k,rfl⟩ : ∃ k, j = k+1 := ⟨j-1,by omega⟩
  have below := within_join '.' (hostname.splitOn '.') inside
  have shorter := join_shorter '.' (hostname.splitOn '.') inside
  rw [whole] at below shorter
  exact ⟨below,shorter⟩

-- A closed rule is dropped only under a kept one that covers it.
theorem closed_covered (rules : List Text) (member : ⟨true,hostname⟩ ∈ hostPatterns parser rules) :
    ∃ q, Kept parser rules q ∧ q.Above '.' ⟨true,hostname⟩ := by
  obtain ⟨root,⟨p,inside,rfl⟩,low,top⟩ := root_above '.' parentDomains (fun _ _ above => (parentDomains_within above).1)
    (fun _ _ above => (parentDomains_within above).2) (fun name => ∃ p ∈ hostPatterns parser rules, p.host = name)
    ⟨_,member,rfl⟩
  obtain ⟨q,first⟩ : ∃ q, (hostPatterns parser rules).find? (·.host = p.host) = some q := by
    apply Option.isSome_iff_exists.mp
    exact List.find?_isSome.mpr ⟨p,inside,decide_eq_true rfl⟩
  have same : q.host = p.host := by simpa using List.find?_some first
  refine ⟨q,⟨same ▸ first,?_⟩,above_within '.' q (same ▸ low)⟩
  rw [same]
  intro parent above other listed equal
  exact top parent above ⟨other,listed,equal⟩

theorem kept_exact (faithful : Faithful parser) (rules : List Text) (q : Pattern Char) :
    q ∈ hostPatterns parser (removeRedundantRules parser rules) ↔ Kept parser rules q := by
  constructor
  · intro member
    obtain ⟨rule,stays,own⟩ := List.mem_filterMap.mp member
    obtain ⟨i,found,finished⟩ := (mem_result _ rules).mp stays
    rcases (finish_exact parser (scan_exact parser rules) i).mp finished with ⟨other,entry,none⟩ | ⟨hostname,index,top⟩
    · rw [found] at entry
      cases entry
      rw [entered_none faithful,own] at none
      cases none
    · obtain ⟨inside,meets,-⟩ := List.findIdx?_eq_some_iff_getElem.mp index
      have here : rules[i] = rule := by
        rw [List.getElem?_eq_getElem inside] at found
        exact Option.some.inj found
      rw [here,named_exact faithful,own] at meets
      obtain rfl : q.host = hostname := by simpa using meets
      refine ⟨?_,fun parent above => (unlisted_exact faithful rules parent).mp (top parent above)⟩
      rw [hostPatterns,List.find?_filterMap]
      have first : rules.find? (named parser q.host) = some rule := by
        rw [List.find?_eq_bind_findIdx?_getElem?,index]
        exact found
      rw [funext (named_exact faithful q.host)] at first
      rw [first]
      exact own
  · intro kept
    obtain ⟨rule,stays,own⟩ := redundant_kept parser faithful kept
    exact List.mem_filterMap.mpr ⟨rule,stays,own⟩

-- Where all blocking rules are rules of a hostname, nothing else can make up
-- for one that is dropped.
theorem hostname_lists_exact (faithful : Faithful parser) (rules : List Text)
    (same : ∀ rule ∈ rules, trim (optimizePattern rule) = trim rule)
    (only : ∀ rule ∈ rules, blocks parser rule = true → hostPattern parser rule ≠ none) :
    Preserves parser elsewhere rules ↔ ∀ p ∈ hostPatterns parser rules, ∃ q, Kept parser rules q ∧ q.Above '.' p := by
  have harmless : ∀ rule ∈ rules, Harmless parser elsewhere rule := fun rule member => harmless_same parser elsewhere (same rule member)
  constructor
  · intro preserves p member
    obtain ⟨original,listed,own⟩ := List.mem_filterMap.mp member
    have valid : ∀ q ∈ hostPatterns parser rules, Hostname q.host := by
      intro q inside
      obtain ⟨rule,-,found⟩ := List.mem_filterMap.mp inside
      unfold hostPattern at found
      split at found
      · cases found
      · obtain ⟨pattern,-,read⟩ := Option.bind_eq_some_iff.mp found
        obtain ⟨hostname,host,rfl⟩ := Option.map_eq_some_iff.mp read
        exact (patternHostname_exact.mp host).1
    have unused : ∀ q ∈ hostPatterns parser (removeRedundantRules parser rules), q.closed = false → '_' ∉ q.host := by
      intro q inside _ underscore
      have kept := (kept_exact parser faithful rules q).mp inside
      exact absurd ((valid q (List.mem_of_find?_eq_some kept.1)).2 '_' underscore) (by decide)
    have padded (count : Nat) : HostText (p.host ++ List.replicate count '_') := by
      intro c inside
      rcases List.mem_append.mp inside with host | pad
      · exact (hostname_plain (valid p member)).1 c host
      · rw [List.eq_of_mem_replicate pad]
        decide
    have all : ∀ host, HostText host → p.Blocks '.' host →
        ∃ q ∈ hostPatterns parser (removeRedundantRules parser rules), q.Blocks '.' host := by
      intro host text meets
      have blocked : Blocked parser elsewhere rules host := ⟨original,listed,(hostPattern_blocks parser elsewhere own text).mpr meets⟩
      obtain ⟨_,output,found⟩ := (preserves.1 host text).mp blocked
      rw [executeSync_exact] at output
      obtain ⟨rule,stays,rfl⟩ := List.mem_map.mp output
      have inside := redundant_subset parser rules stays
      have kind : blocks parser rule = true := by
        rw [← rewrite_kind parser elsewhere faithful (harmless rule inside)]
        obtain ⟨pattern,network,-⟩ := found
        rw [blocks,network]
        rfl
      obtain ⟨q,first⟩ := Option.ne_none_iff_exists'.mp (only rule inside kind)
      have before := ((rewrite_blocking parser elsewhere (harmless rule inside) kind).2 host text).mp found
      exact ⟨q,List.mem_filterMap.mpr ⟨rule,stays,first⟩,(hostPattern_blocks parser elsewhere first text).mp before⟩
    have other : '_' ≠ '.' := by decide
    obtain ⟨q,inside,above⟩ := (one_above '.' _ p other unused HostText padded).mp all
    exact ⟨q,(kept_exact parser faithful rules q).mp inside,above⟩
  · exact optimizer_preserves parser elsewhere faithful rules harmless

end Coverage

section Runs

theorem basicParser_plain (parsed : AGTreeParser.parse basicParser text = some (.network network)) :
    startsWith (trim text) ['|','|'] = true ∧ network = { pattern := trim text } := by
  rw [AGTreeParser.parse,basicParser] at parsed
  split at parsed
  · next bars =>
    cases parsed
    exact ⟨bars,rfl⟩
  · split at parsed
    · cases parsed
    · split at parsed <;> cases parsed

theorem basicParser_faithful : Faithful basicParser := by
  refine ⟨?_,?_,?_⟩
  · intro text network parsed
    obtain ⟨bars,rfl⟩ := basicParser_plain parsed
    obtain ⟨rest,same⟩ := startsWith_iff.mp bars
    rw [same]
    rfl
  · intro text network parsed modifier member
    obtain ⟨-,rfl⟩ := basicParser_plain parsed
    cases member
  · intro text network parsed kept inside nonempty
    obtain ⟨-,rfl⟩ := basicParser_plain parsed
    exact absurd (List.sublist_nil.mp inside) nonempty

theorem subdomain_optimizes : Preserves basicParser (fun _ _ => False)
    ["! Title: x".toList,"||www.example.org^".toList," ||example.org^".toList,"||example.net/".toList] := by
  apply optimizer_preserves basicParser _ basicParser_faithful
  · intro rule member
    simp only [List.mem_cons,List.not_mem_nil,or_false] at member
    rcases member with rfl | rfl | rfl | rfl
    · exact harmless_same _ _ (by decide)
    · exact harmless_same _ _ (by decide)
    · exact harmless_same _ _ (by decide)
    · have valid : Hostname "example.net".toList := ⟨by decide,every_char (by decide)⟩
      exact harmless_slash basicParser _ valid (by decide) (by decide)
  · have listed : hostPatterns basicParser
        ["! Title: x".toList,"||www.example.org^".toList," ||example.org^".toList,"||example.net/".toList] =
        [⟨true,"www.example.org".toList⟩,⟨true,"example.org".toList⟩] := by decide
    have closed : ∀ p ∈ [Pattern.mk true "www.example.org".toList,⟨true,"example.org".toList⟩], p.closed = true := by decide
    intro p member
    obtain ⟨kind,hostname⟩ := p
    obtain rfl : kind = true := closed _ (listed ▸ member)
    exact closed_covered basicParser _ member

-- The star of `||*ads.com^` let the name begin inside a label.
theorem leading_star_lost : Faithful basicParser ∧ ¬ Preserves basicParser (fun _ _ => False) ["||*ads.com^".toList] := by
  refine ⟨basicParser_faithful,?_⟩
  intro given
  obtain ⟨blocked,-⟩ := given
  have result : executeSync basicParser ["||*ads.com^".toList] = ["||ads.com^".toList] := by decide
  have text : HostText "myads.com".toList := every_char (by decide)
  rw [result] at blocked
  have before : Blocked basicParser (fun _ _ => False) ["||*ads.com^".toList] "myads.com".toList := by
    refine ⟨_,List.mem_singleton_self _,"||*ads.com^".toList,by decide,?_⟩
    rw [PatternBlocks,if_pos (by decide)]
    exact ⟨"myads.com".toList,within_refl '.' _,by decide⟩
  obtain ⟨rule,member,pattern,network,after⟩ := (blocked _ text).mp before
  obtain rfl := List.mem_singleton.mp member
  have same : networkPattern basicParser "||ads.com^".toList = some (blocking "ads.com".toList) := by decide
  rw [same] at network
  cases network
  have valid : Hostname "ads.com".toList := ⟨by decide,every_char (by decide)⟩
  have inside := (closed_blocks '.').mp ((blocking_blocks _ valid text).mp after)
  exact absurd ((within_exact '.').mp inside) (by decide)

end Runs

end AdblockCompiler.Optimizer
