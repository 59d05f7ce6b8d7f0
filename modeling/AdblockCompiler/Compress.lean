import AdblockCompiler.HostPatterns
import AdblockCompiler.Rules

namespace AdblockCompiler.Compress
open JsText Rules HostPatterns

structure IBlocklistRule where
  ruleText : Text
  canCompress : Bool
  hostname : Option Text
  originalRuleText : Text
  deriving DecidableEq, Repr

-- A plain object also answers for what it inherits from Object.prototype; all
-- of these are truthy.
def inherited : List Text :=
  ["constructor","__defineGetter__","__defineSetter__","hasOwnProperty","__lookupGetter__","__lookupSetter__",
    "isPrototypeOf","propertyIsEnumerable","toString","valueOf","__proto__","toLocaleString"].map String.toList

-- byHostname by its own keys, each set to true.
def listedIn (byHostname : List Text) (hostname : Text) : Bool := hostname ∈ inherited || hostname ∈ byHostname

section Transformation
variable (parser : RuleParser)

def toAdblockRules (ruleText : Text) : Except Thrown (List IBlocklistRule) :=
  if isEtcHostsRule parser ruleText then
    (loadEtcHostsRuleProperties parser ruleText).map fun props =>
      props.hostnames.map fun hostname => ⟨blocking hostname,true,some hostname,ruleText⟩
  else if isJustDomain ruleText then .ok [⟨blocking ruleText,true,some ruleText,ruleText⟩]
  else
    let props := loadAdblockRuleProperties parser ruleText
    match props.hostname with
    | some hostname =>
      if hostname ≠ [] ∧ props.whitelist = false ∧ props.options.getD [] = [] then
        .ok [⟨ruleText,true,some hostname,ruleText⟩]
      else .ok [⟨ruleText,false,none,ruleText⟩]
    | none => .ok [⟨ruleText,false,none,ruleText⟩]

structure Pass where
  byHostname : List Text := []
  filtered : List IBlocklistRule := []

def Pass.add (pass : Pass) (adblockRule : IBlocklistRule) : Pass :=
  if adblockRule.canCompress then
    match adblockRule.hostname with
    | some hostname =>
      if hostname ≠ [] ∧ listedIn pass.byHostname hostname = false then
        ⟨pass.byHostname ++ [hostname],pass.filtered ++ [adblockRule]⟩
      else pass
    | none => pass
  else { pass with filtered := pass.filtered ++ [adblockRule] }

-- The loop over indexOf('.', dotIndex + 1), from the character after the last
-- dot found.
def parentListed (byHostname : List Text) : Text → Bool
  | [] => false
  | c :: rest => (c == '.' && listedIn byHostname rest) || parentListed byHostname rest

def hasParentDomainRule (hostname : Text) (byHostname : List Text) : Bool := parentListed byHostname hostname.tail

def redundant (byHostname : List Text) (rule : IBlocklistRule) : Bool :=
  rule.canCompress && rule.hostname.any fun hostname => hostname ≠ [] && hasParentDomainRule hostname byHostname

def executeSync (rules : List Text) : Except Thrown (List Text) := do
  let pass ← rules.foldlM (fun pass rule => (toAdblockRules parser rule).map fun more => more.foldl Pass.add pass) {}
  let result := pass.filtered.filter fun rule => !redundant pass.byHostname rule
  pure (result.map IBlocklistRule.ruleText)

end Transformation

-- What a rule blocks, in the order the formats are told apart.
def readPattern (pattern : Text) : Option (Pattern Char) :=
  let body := pattern.drop 2
  if startsWith pattern ['|','|'] = false then none
  else if body.getLast? = some '^' then some ⟨true,body.dropLast⟩
  else if body ≠ [] ∧ body.all isHostnameChar then some ⟨false,body⟩
  else none

section Blocking
variable (parser : RuleParser)

def hostnames (ruleText : Text) : Option (List Text) :=
  match AGTreeParser.parse parser ruleText with
  | some (.host hostnames) => some hostnames
  | _ => none

def patterns (ruleText : Text) : List (Pattern Char) :=
  match hostnames parser ruleText with
  | some listed => listed.map (⟨true,·⟩)
  | none =>
    if isJustDomain ruleText then [⟨true,ruleText⟩]
    else ((networkPattern parser ruleText).bind readPattern).toList

def Blocked (rules : List Text) (domain : Text) : Prop := ∃ rule ∈ rules, ∃ p ∈ patterns parser rule, p.Blocks '.' domain

-- A hosts rule, a plain domain, or a modifier-free network rule of a hostname.
def compressible (ruleText : Text) : Bool :=
  (hostnames parser ruleText).isSome || isJustDomain ruleText ||
    ((networkPattern parser ruleText).bind patternHostname).isSome

def LosesNothing (rules : List Text) : Prop :=
  ∃ output, executeSync parser rules = .ok output ∧
    (∀ domain, Blocked parser (rules.filter (compressible parser)) domain → Blocked parser output domain) ∧
    (rules.filter fun rule => !compressible parser rule).Sublist output

-- The patterns of the compressible rules in order, and what is left of a list:
-- the first pattern of a hostname with no listed parent, and the rules that
-- are no candidates.
def candidates (rules : List Text) : List (Pattern Char) := (rules.filter (compressible parser)).flatMap (patterns parser)

def Listed (rules : List Text) (hostname : Text) : Prop :=
  hostname ∈ inherited ∨ hostname ≠ [] ∧ ∃ p ∈ candidates parser rules, p.host = hostname

def Survives (rules : List Text) (q : Pattern Char) : Prop :=
  q.host ≠ [] ∧ q.host ∉ inherited ∧ (candidates parser rules).find? (·.host = q.host) = some q ∧
    ∀ parent ∈ parents '.' q.host.tail, ¬ Listed parser rules parent

def Kept (rules : List Text) (q : Pattern Char) : Prop :=
  Survives parser rules q ∨ ∃ rule ∈ rules, compressible parser rule = false ∧ q ∈ patterns parser rule

end Blocking

section Reading

theorem readPattern_closed (hostname : Text) : readPattern (blocking hostname) = some ⟨true,hostname⟩ := by
  simp [readPattern]

theorem readPattern_open (valid : Hostname hostname) : readPattern (anchored hostname) = some ⟨false,hostname⟩ := by
  have last : hostname.getLast? ≠ some '^' := by
    intro same
    have caret := valid.2 '^' (List.mem_of_getLast? same)
    exact absurd caret (by decide)
  have all : hostname.all isHostnameChar = true := List.all_eq_true.mpr valid.2
  simp [readPattern,last,valid.1,all]

theorem readPattern_hostname (found : patternHostname pattern = some hostname) :
    ∃ closed, readPattern pattern = some ⟨closed,hostname⟩ := by
  obtain ⟨valid,rfl | rfl⟩ := patternHostname_exact.mp found
  · exact ⟨false,readPattern_open valid⟩
  · exact ⟨true,readPattern_closed hostname⟩

-- An open pattern is only read where its host is a hostname.
theorem readPattern_chars (found : readPattern pattern = some p) (still : p.closed = false) :
    ∀ c ∈ p.host, isHostnameChar c = true := by
  simp only [readPattern] at found
  split at found
  · cases found
  · split at found
    · cases found
      cases still
    · split at found
      · next shape =>
        cases found
        exact List.all_eq_true.mp shape.2
      · cases found

theorem blocking_no_domain (hostname : Text) : isJustDomain (blocking hostname) = false := by
  have last : (blocking hostname).getLast? ≠ some '.' := by
    have caret : (blocking hostname).getLast? = some '^' := List.getLast?_concat
    rw [caret]
    decide
  have bar : ('|' == '.') = false := by decide
  have label (text : Text) : domainLabel ('|' :: text) = false := by
    have bad : Char.isAlphanum '|' = false := by decide
    simp [domainLabel,bad]
  have first : ((blocking hostname).splitOn '.').all domainLabel = false := by
    rw [blocking,anchored,List.cons_append,List.splitOn_cons_eq_if_modifyHead,bar,if_neg Bool.false_ne_true]
    cases shape : ('|' :: hostname ++ ['^']).splitOn '.' with
    | nil => exact absurd shape (List.splitOn_ne_nil '.' _)
    | cons front rest => rw [List.modifyHead_cons,List.all_cons,label,Bool.false_and]
  simp only [isJustDomain,DOMAIN_REGEX,last,if_false,first,Bool.and_false]

variable (parser : RuleParser)

-- The rule that stands for a pattern of a candidate line.
def entry (ruleText : Text) (p : Pattern Char) : IBlocklistRule :=
  ⟨if (hostnames parser ruleText).isSome || isJustDomain ruleText then blocking p.host else ruleText,true,some p.host,ruleText⟩

def items (ruleText : Text) : List IBlocklistRule :=
  if compressible parser ruleText then (patterns parser ruleText).map (entry parser ruleText)
  else [⟨ruleText,false,none,ruleText⟩]

theorem hosts_exact (ruleText : Text) : isEtcHostsRule parser ruleText = (hostnames parser ruleText).isSome := by
  rw [isEtcHostsRule,hostnames]
  cases AGTreeParser.parse parser ruleText with
  | none => rfl
  | some ast => cases ast <;> rfl

theorem hosts_loaded (ruleText : Text) (listed : hostnames parser ruleText = some names) :
    loadEtcHostsRuleProperties parser ruleText = .ok ⟨ruleText,names⟩ := by
  unfold hostnames at listed
  rw [loadEtcHostsRuleProperties,parse_trim]
  cases parsed : AGTreeParser.parse parser ruleText with
  | none =>
    rw [parsed] at listed
    cases listed
  | some ast =>
    rw [parsed] at listed
    cases ast with
    | host found =>
      cases listed
      rfl
    | comment | network | other => cases listed

theorem toAdblockRules_exact (ruleText : Text) : toAdblockRules parser ruleText = .ok (items parser ruleText) := by
  rw [toAdblockRules,hosts_exact]
  cases listed : hostnames parser ruleText with
  | some names =>
    simp [hosts_loaded parser ruleText listed,listed,items,compressible,patterns,entry,Except.map,Function.comp_def]
  | none =>
    by_cases domain : isJustDomain ruleText = true
    · simp [domain,listed,items,compressible,patterns,entry]
    · cases found : (networkPattern parser ruleText).bind patternHostname with
      | some hostname =>
        obtain ⟨named,plain⟩ := (properties_exact parser ruleText hostname).mpr found
        obtain ⟨pattern,same,host⟩ := Option.bind_eq_some_iff.mp found
        obtain ⟨closed,read⟩ := readPattern_hostname host
        have nonempty := (patternHostname_exact.mp host).1.1
        simp [domain,listed,named,plain,nonempty,items,compressible,host,patterns,same,read,entry]
      | none =>
        have other : items parser ruleText = [⟨ruleText,false,none,ruleText⟩] := by simp [items,compressible,listed,domain,found]
        rw [other]
        simp only [Option.isSome_none,Bool.false_eq_true,if_false,domain]
        split
        · next hostname named =>
          split
          · next plain =>
            have wrong := (properties_exact parser ruleText hostname).mp ⟨named,plain.2⟩
            rw [found] at wrong
            cases wrong
          · rfl
        · rfl

end Reading

section Scanning
variable {pass : Pass}

def hosts (hostname : Text) (item : IBlocklistRule) : Bool := item.canCompress && item.hostname == some hostname

theorem hosts_named (can : item.canCompress = true) (named : item.hostname = some hostname) (other : Text) :
    hosts other item = true ↔ other = hostname := by
  rw [hosts,can,named,Bool.true_and,beq_iff_eq,Option.some.injEq]
  exact eq_comm

-- What the first pass has kept of the items it has seen: the first item of
-- each hostname that the table did not answer for, and all that cannot be
-- compressed.
structure Scanned (seen : List IBlocklistRule) (pass : Pass) : Prop where
  table : ∀ hostname, hostname ∈ pass.byHostname ↔ hostname ≠ [] ∧ hostname ∉ inherited ∧ ∃ item ∈ seen, hosts hostname item
  first : ∀ item, item.canCompress = true → (item ∈ pass.filtered ↔
    ∃ hostname, hostname ≠ [] ∧ hostname ∉ inherited ∧ seen.find? (hosts hostname) = some item)
  others : pass.filtered.filter (fun item => !item.canCompress) = seen.filter fun item => !item.canCompress

theorem scanned_empty : Scanned [] {} := by
  refine ⟨?_,?_,rfl⟩
  · simp
  · simp

theorem scanned_skip (scanned : Scanned seen pass) (can : new.canCompress = true)
    (known : ∀ hostname, hostname ≠ [] → hostname ∉ inherited → hosts hostname new = true →
      ∃ item ∈ seen, hosts hostname item) : Scanned (seen ++ [new]) pass := by
  refine ⟨?_,?_,?_⟩
  · intro hostname
    rw [scanned.table hostname]
    constructor
    · intro given
      obtain ⟨nonempty,own,item,member,meets⟩ := given
      exact ⟨nonempty,own,item,List.mem_append_left _ member,meets⟩
    · intro given
      obtain ⟨nonempty,own,item,member,meets⟩ := given
      refine ⟨nonempty,own,?_⟩
      rcases List.mem_append.mp member with earlier | last
      · exact ⟨item,earlier,meets⟩
      · obtain rfl := List.mem_singleton.mp last
        exact known hostname nonempty own meets
  · intro item compress
    rw [scanned.first item compress]
    have same (hostname : Text) (nonempty : hostname ≠ []) (own : hostname ∉ inherited) :
        (seen ++ [new]).find? (hosts hostname) = seen.find? (hosts hostname) := by
      rw [List.find?_append]
      by_cases meets : hosts hostname new = true
      · obtain ⟨early,member,found⟩ := known hostname nonempty own meets
        obtain ⟨first,shape⟩ := Option.isSome_iff_exists.mp (List.find?_isSome.mpr ⟨early,member,found⟩)
        rw [shape,Option.some_or]
      · rw [List.find?_singleton,if_neg meets,Option.or_none]
    constructor
    · intro given
      obtain ⟨hostname,nonempty,own,found⟩ := given
      exact ⟨hostname,nonempty,own,(same hostname nonempty own).trans found⟩
    · intro given
      obtain ⟨hostname,nonempty,own,found⟩ := given
      exact ⟨hostname,nonempty,own,(same hostname nonempty own).symm.trans found⟩
  · rw [scanned.others,List.filter_append]
    simp [can]

theorem scanned_take (scanned : Scanned seen pass) (can : new.canCompress = true) (named : new.hostname = some hostname)
    (nonempty : hostname ≠ []) (own : hostname ∉ inherited) (fresh : ∀ item ∈ seen, hosts hostname item = false) :
    Scanned (seen ++ [new]) ⟨pass.byHostname ++ [hostname],pass.filtered ++ [new]⟩ := by
  have meets := hosts_named can named
  refine ⟨?_,?_,?_⟩
  · intro other
    rw [List.mem_append,scanned.table other,List.mem_singleton]
    constructor
    · rintro (⟨some,free,item,member,found⟩ | rfl)
      · exact ⟨some,free,item,List.mem_append_left _ member,found⟩
      · exact ⟨nonempty,own,new,by simp,(meets other).mpr rfl⟩
    · intro given
      obtain ⟨some,free,item,member,found⟩ := given
      rcases List.mem_append.mp member with earlier | last
      · exact .inl ⟨some,free,item,earlier,found⟩
      · obtain rfl := List.mem_singleton.mp last
        exact .inr ((meets other).mp found)
  · intro item compress
    have split (other : Text) : (seen ++ [new]).find? (hosts other) = some item ↔
        seen.find? (hosts other) = some item ∨ other = hostname ∧ item = new := by
      rw [List.find?_append,List.find?_singleton]
      by_cases here : other = hostname
      · have absent : seen.find? (hosts other) = none := by
          apply List.find?_eq_none.mpr
          intro early member
          rw [here,fresh early member]
          exact Bool.false_ne_true
        rw [absent,Option.none_or,if_pos ((meets other).mpr here)]
        simp [here,eq_comm]
      · rw [if_neg (mt (meets other).mp here),Option.or_none]
        simp [here]
    rw [List.mem_append,scanned.first item compress,List.mem_singleton]
    constructor
    · rintro (⟨other,some,free,found⟩ | rfl)
      · exact ⟨other,some,free,(split other).mpr (.inl found)⟩
      · exact ⟨hostname,nonempty,own,(split hostname).mpr (.inr ⟨rfl,rfl⟩)⟩
    · intro given
      obtain ⟨other,some,free,found⟩ := given
      rcases (split other).mp found with earlier | ⟨_,last⟩
      · exact .inl ⟨other,some,free,earlier⟩
      · exact .inr last
  · rw [List.filter_append,List.filter_append,scanned.others]

theorem scanned_other (scanned : Scanned seen pass) (cannot : new.canCompress = false) :
    Scanned (seen ++ [new]) { pass with filtered := pass.filtered ++ [new] } := by
  have never (hostname : Text) : hosts hostname new = false := by simp [hosts,cannot]
  refine ⟨?_,?_,?_⟩
  · intro hostname
    have same : (∃ item ∈ seen ++ [new], hosts hostname item) ↔ ∃ item ∈ seen, hosts hostname item := by
      simp [or_and_right,exists_or,never]
    rw [same]
    exact scanned.table hostname
  · intro item compress
    have other : item ≠ new := by
      rintro rfl
      exact absurd (cannot.symm.trans compress) Bool.noConfusion
    simp only [List.mem_append,List.mem_singleton,other,or_false,List.find?_append,List.find?_singleton,never,
      Bool.false_eq_true,if_false,Option.or_none]
    exact scanned.first item compress
  · rw [List.filter_append,List.filter_append,scanned.others]

theorem scanned_step (scanned : Scanned seen pass) (new : IBlocklistRule) : Scanned (seen ++ [new]) (pass.add new) := by
  unfold Pass.add
  split
  · next can =>
    split
    · next hostname named =>
      have meets := hosts_named can named
      split
      · next open_ =>
        obtain ⟨nonempty,absent⟩ := open_
        obtain ⟨own,missing⟩ : hostname ∉ inherited ∧ hostname ∉ pass.byHostname := by simpa [listedIn] using absent
        refine scanned_take scanned can named nonempty own ?_
        intro item member
        by_contra found
        exact missing ((scanned.table hostname).mpr ⟨nonempty,own,item,member,by simpa using found⟩)
      · next known =>
        apply scanned_skip scanned can
        intro other nonempty own found
        obtain rfl := (meets other).mp found
        have listed : other ∈ pass.byHostname := by
          by_contra missing
          exact known ⟨nonempty,by simp [listedIn,own,missing]⟩
        exact ((scanned.table other).mp listed).2.2
    · next unnamed =>
      apply scanned_skip scanned can
      intro other _ _ found
      simp [hosts,unnamed] at found
  · next cannot => exact scanned_other scanned (by simpa using cannot)

theorem scanned_run (scanned : Scanned seen pass) (more : List IBlocklistRule) :
    Scanned (seen ++ more) (more.foldl Pass.add pass) := by
  induction more generalizing seen pass with
  | nil => simpa using scanned
  | cons new rest ih =>
    have step := ih (scanned_step scanned new)
    rwa [List.append_assoc,List.singleton_append] at step

variable (parser : RuleParser)

theorem scan_rules (rules : List Text) (pass : Pass) :
    (rules.foldlM (fun pass rule => (toAdblockRules parser rule).map fun more => more.foldl Pass.add pass) pass :
      Except Thrown Pass) = .ok ((rules.flatMap (items parser)).foldl Pass.add pass) := by
  induction rules generalizing pass with
  | nil => rfl
  | cons rule rest ih =>
    rw [List.foldlM_cons,toAdblockRules_exact,List.flatMap_cons,List.foldl_append]
    exact ih _

def scan (rules : List Text) : Pass := (rules.flatMap (items parser)).foldl Pass.add {}

theorem scan_exact (rules : List Text) : Scanned (rules.flatMap (items parser)) (scan parser rules) := by
  have whole := scanned_run scanned_empty (rules.flatMap (items parser))
  rwa [List.nil_append] at whole

def output (rules : List Text) : List IBlocklistRule :=
  (scan parser rules).filtered.filter fun rule => !redundant (scan parser rules).byHostname rule

theorem executeSync_exact (rules : List Text) :
    executeSync parser rules = .ok ((output parser rules).map IBlocklistRule.ruleText) := by
  rw [executeSync,scan_rules]
  rfl

end Scanning

section Redundancy

theorem parentListed_exact (byHostname : List Text) (text : Text) :
    parentListed byHostname text = true ↔ ∃ parent ∈ parents '.' text, listedIn byHostname parent = true := by
  induction text with
  | nil => simp [parentListed,parents]
  | cons c rest ih =>
    rw [parentListed,Bool.or_eq_true,ih,parents]
    by_cases dot : c = '.'
    · simp [dot]
    · simp [dot]

theorem redundant_exact (byHostname : List Text) (can : rule.canCompress = true) (named : rule.hostname = some hostname)
    (nonempty : hostname ≠ []) :
    redundant byHostname rule = true ↔ ∃ parent ∈ parents '.' hostname.tail, listedIn byHostname parent = true := by
  rw [← parentListed_exact]
  simp [redundant,can,named,nonempty,hasParentDomainRule]

variable (parser : RuleParser)

-- An item of the first pass and the pattern it stands for.
def Stands (item : IBlocklistRule) (p : Pattern Char) : Prop :=
  item.canCompress = true ∧ item.hostname = some p.host ∧ patterns parser item.ruleText = [p]

-- The parser takes `||hostname^` apart as a plain network rule.
def ReadsBlocking : Prop :=
  ∀ hostname, (isJustDomain hostname = true ∨ ∃ text names, hostnames parser text = some names ∧ hostname ∈ names) →
    AGTreeParser.parse parser (blocking hostname) = some (.network { pattern := blocking hostname })

theorem blocking_stands (parsed : AGTreeParser.parse parser (blocking hostname) = some (.network { pattern := blocking hostname }))
    (original : Text) : Stands parser ⟨blocking hostname,true,some hostname,original⟩ ⟨true,hostname⟩ := by
  refine ⟨rfl,rfl,?_⟩
  simp [patterns,hostnames,networkPattern,parsed,blocking_no_domain,readPattern_closed]

theorem entry_stands (reads : ReadsBlocking parser) (member : p ∈ patterns parser rule) :
    Stands parser (entry parser rule p) p := by
  cases listed : hostnames parser rule with
  | some names =>
    obtain ⟨hostname,named,rfl⟩ : ∃ hostname ∈ names, ⟨true,hostname⟩ = p := by simpa [patterns,listed] using member
    have parsed := reads hostname (.inr ⟨rule,names,listed,named⟩)
    simpa [entry,listed] using blocking_stands parser parsed rule
  | none =>
    by_cases domain : isJustDomain rule = true
    · obtain rfl : p = ⟨true,rule⟩ := by simpa [patterns,listed,domain] using member
      have parsed := reads rule (.inl domain)
      simpa [entry,listed,domain] using blocking_stands parser parsed rule
    · have read : (networkPattern parser rule).bind readPattern = some p := by simpa [patterns,listed,domain] using member
      refine ⟨rfl,rfl,?_⟩
      simp [entry,patterns,listed,domain,read]

theorem items_stand (reads : ReadsBlocking parser) (rules : List Text) :
    List.Forall₂ (Stands parser) ((rules.flatMap (items parser)).filter (·.canCompress)) (candidates parser rules) := by
  induction rules with
  | nil => exact .nil
  | cons rule rest ih =>
    rw [List.flatMap_cons,List.filter_append]
    by_cases can : compressible parser rule = true
    · have all : (items parser rule).filter (·.canCompress) = (patterns parser rule).map (entry parser rule) := by
        simp [items,can,entry,List.filter_map,Function.comp_def]
      have front : candidates parser (rule :: rest) = patterns parser rule ++ candidates parser rest := by
        simp [candidates,can]
      rw [all,front]
      apply List.rel_append _ ih
      rw [List.forall₂_map_left_iff,List.forall₂_same]
      exact fun p member => entry_stands parser reads member
    · have none : (items parser rule).filter (·.canCompress) = [] := by simp [items,can]
      have front : candidates parser (rule :: rest) = candidates parser rest := by simp [candidates,can]
      rw [none,front]
      exact ih

theorem first_stands (related : List.Forall₂ (Stands parser) xs ps) (hostname : Text) :
    Option.Rel (Stands parser) (xs.find? (hosts hostname)) (ps.find? (·.host = hostname)) := by
  induction related with
  | nil => exact .none
  | @cons item p xs ps stands _ ih =>
    rw [List.find?_cons,List.find?_cons]
    have meets := hosts_named stands.1 stands.2.1 hostname
    by_cases here : hostname = p.host
    · rw [meets.mpr here,decide_eq_true here.symm]
      exact .some stands
    · rw [Bool.eq_false_iff.mpr (mt meets.mp here),decide_eq_false (Ne.symm here)]
      exact ih

theorem stands_member (related : List.Forall₂ (Stands parser) xs ps) (hostname : Text) :
    (∃ item ∈ xs, hosts hostname item = true) ↔ ∃ p ∈ ps, p.host = hostname := by
  induction related with
  | nil => simp
  | @cons item p xs ps stands _ ih =>
    have meets := hosts_named stands.1 stands.2.1 hostname
    simp only [List.exists_mem_cons_iff,ih,meets]
    rw [eq_comm]

theorem hosts_filter (hostname : Text) (xs : List IBlocklistRule) :
    (xs.filter (·.canCompress)).find? (hosts hostname) = xs.find? (hosts hostname) := by
  rw [List.find?_filter]
  congr 1
  funext item
  rw [Bool.eq_iff_iff]
  simp [hosts]

theorem table_exact (reads : ReadsBlocking parser) (rules : List Text) (hostname : Text) :
    listedIn (scan parser rules).byHostname hostname = true ↔ Listed parser rules hostname := by
  have same := stands_member parser (items_stand parser reads rules) hostname
  have filtered : (∃ item ∈ (rules.flatMap (items parser)).filter (·.canCompress), hosts hostname item = true) ↔
      ∃ item ∈ rules.flatMap (items parser), hosts hostname item = true := by
    constructor
    · intro given
      obtain ⟨item,member,found⟩ := given
      exact ⟨item,List.mem_of_mem_filter member,found⟩
    · intro given
      obtain ⟨item,member,found⟩ := given
      have can : item.canCompress = true := (Bool.and_eq_true_iff.mp found).1
      exact ⟨item,List.mem_filter.mpr ⟨member,can⟩,found⟩
  simp only [listedIn,Bool.or_eq_true,decide_eq_true_eq,Listed,(scan_exact parser rules).table,← same,filtered]
  tauto

theorem survivor_exact (reads : ReadsBlocking parser) (rules : List Text) :
    (∃ item ∈ output parser rules, item.canCompress = true ∧ q ∈ patterns parser item.ruleText) ↔ Survives parser rules q := by
  have related := items_stand parser reads rules
  have scanned := scan_exact parser rules
  have gone (item : IBlocklistRule) (stands : Stands parser item q) (nonempty : q.host ≠ []) :
      (!redundant (scan parser rules).byHostname item) = true ↔
        ∀ parent ∈ parents '.' q.host.tail, ¬ Listed parser rules parent := by
    rw [Bool.not_eq_true',Bool.eq_false_iff,ne_eq,redundant_exact _ stands.1 stands.2.1 nonempty]
    simp only [table_exact parser reads,not_exists,not_and]
  constructor
  · intro given
    obtain ⟨item,member,can,reading⟩ := given
    obtain ⟨kept,needed⟩ := List.mem_filter.mp member
    obtain ⟨hostname,nonempty,own,found⟩ := (scanned.first item can).mp kept
    have first := first_stands parser related hostname
    rw [hosts_filter,found] at first
    cases candidate : (candidates parser rules).find? (·.host = hostname) with
    | none =>
      rw [candidate] at first
      cases first
    | some p =>
      rw [candidate] at first
      obtain ⟨stands⟩ := first
      obtain rfl : q = p := by
        rw [stands.2.2] at reading
        exact List.mem_singleton.mp reading
      obtain rfl : q.host = hostname := by simpa using List.find?_some candidate
      exact ⟨nonempty,own,candidate,(gone item stands nonempty).mp needed⟩
  · intro given
    obtain ⟨nonempty,own,candidate,top⟩ := given
    have first := first_stands parser related q.host
    rw [hosts_filter,candidate] at first
    cases found : (rules.flatMap (items parser)).find? (hosts q.host) with
    | none =>
      rw [found] at first
      cases first
    | some item =>
      rw [found] at first
      obtain ⟨stands⟩ := first
      have kept := (scanned.first item stands.1).mpr ⟨q.host,nonempty,own,found⟩
      refine ⟨item,List.mem_filter.mpr ⟨kept,(gone item stands nonempty).mpr top⟩,stands.1,?_⟩
      rw [stands.2.2]
      exact List.mem_singleton_self q

theorem other_items (rules : List Text) :
    (rules.flatMap (items parser)).filter (fun item => !item.canCompress) =
      (rules.filter fun rule => !compressible parser rule).map fun rule => ⟨rule,false,none,rule⟩ := by
  induction rules with
  | nil => rfl
  | cons rule rest ih =>
    rw [List.flatMap_cons,List.filter_append,ih]
    by_cases can : compressible parser rule = true
    · simp [items,can,entry]
    · simp [items,can]

theorem other_output (rules : List Text) :
    (output parser rules).filter (fun item => !item.canCompress) =
      (rules.filter fun rule => !compressible parser rule).map fun rule => ⟨rule,false,none,rule⟩ := by
  rw [← other_items,← (scan_exact parser rules).others,output,List.filter_filter]
  congr 1
  funext item
  cases can : item.canCompress <;> simp [redundant,can]

-- What a compressed list reads is what the list keeps.
theorem output_exact (reads : ReadsBlocking parser) (rules : List Text) :
    (∃ rule ∈ (output parser rules).map IBlocklistRule.ruleText, q ∈ patterns parser rule) ↔ Kept parser rules q := by
  rw [Kept,← survivor_exact parser reads]
  have others : (∃ rule ∈ rules, compressible parser rule = false ∧ q ∈ patterns parser rule) ↔
      ∃ item ∈ output parser rules, item.canCompress = false ∧ q ∈ patterns parser item.ruleText := by
    have member (item : IBlocklistRule) : (item ∈ output parser rules ∧ item.canCompress = false) ↔
        ∃ rule ∈ rules, compressible parser rule = false ∧ item = ⟨rule,false,none,rule⟩ := by
      have both : (item ∈ output parser rules ∧ item.canCompress = false) ↔
          item ∈ (output parser rules).filter fun item => !item.canCompress := by simp
      rw [both,other_output]
      simp only [List.mem_map,List.mem_filter,Bool.not_eq_true',and_assoc,@eq_comm _ item]
    constructor
    · intro given
      obtain ⟨rule,inside,plain,reading⟩ := given
      have found := (member ⟨rule,false,none,rule⟩).mpr ⟨rule,inside,plain,rfl⟩
      exact ⟨_,found.1,rfl,reading⟩
    · intro given
      obtain ⟨item,inside,cannot,reading⟩ := given
      obtain ⟨rule,original,plain,rfl⟩ := (member item).mp ⟨inside,cannot⟩
      exact ⟨rule,original,plain,reading⟩
  rw [others]
  constructor
  · intro given
    obtain ⟨rule,member,reading⟩ := given
    obtain ⟨item,inside,rfl⟩ := List.mem_map.mp member
    cases can : item.canCompress with
    | true => exact .inl ⟨item,inside,can,reading⟩
    | false => exact .inr ⟨item,inside,can,reading⟩
  · rintro (⟨item,inside,_,reading⟩ | ⟨item,inside,_,reading⟩)
    · exact ⟨item.ruleText,List.mem_map_of_mem inside,reading⟩
    · exact ⟨item.ruleText,List.mem_map_of_mem inside,reading⟩

theorem others_kept (rules : List Text) :
    (rules.filter fun rule => !compressible parser rule).Sublist ((output parser rules).map IBlocklistRule.ruleText) := by
  have texts := congrArg (List.map IBlocklistRule.ruleText) (other_output parser rules)
  rw [List.map_map] at texts
  have same : (IBlocklistRule.ruleText ∘ fun rule => ⟨rule,false,none,rule⟩) = id := rfl
  rw [same,List.map_id] at texts
  rw [← texts]
  exact List.filter_sublist.map _

end Redundancy

section Coverage
variable (parser : RuleParser)

theorem patterns_open (member : p ∈ patterns parser rule) (still : p.closed = false) : ∀ c ∈ p.host, isHostnameChar c = true := by
  unfold patterns at member
  split at member
  · obtain ⟨_,_,rfl⟩ := List.mem_map.mp member
    cases still
  · split at member
    · obtain rfl := List.mem_singleton.mp member
      cases still
    · obtain ⟨pattern,_,read⟩ := Option.bind_eq_some_iff.mp (Option.mem_toList.mp member)
      exact readPattern_chars read still

theorem blocked_candidates (rules : List Text) (domain : Text) :
    Blocked parser (rules.filter (compressible parser)) domain ↔ ∃ p ∈ candidates parser rules, p.Blocks '.' domain := by
  simp only [Blocked,candidates,List.mem_flatMap]
  constructor
  · intro given
    obtain ⟨rule,member,p,reading,blocks⟩ := given
    exact ⟨p,⟨rule,member,reading⟩,blocks⟩
  · intro given
    obtain ⟨p,⟨rule,member,reading⟩,blocks⟩ := given
    exact ⟨rule,member,p,reading,blocks⟩

-- An underscore stands in no open pattern, and so tells them from the closed.
theorem compress_exact (reads : ReadsBlocking parser) (rules : List Text) :
    LosesNothing parser rules ↔ ∀ p ∈ candidates parser rules, ∃ q, Kept parser rules q ∧ q.Above '.' p := by
  let texts := (output parser rules).map IBlocklistRule.ruleText
  have kept (q : Pattern Char) : q ∈ texts.flatMap (patterns parser) ↔ Kept parser rules q := by
    rw [List.mem_flatMap]
    exact output_exact parser reads rules
  have blocked (domain : Text) : Blocked parser texts domain ↔ ∃ q ∈ texts.flatMap (patterns parser), q.Blocks '.' domain := by
    simp only [Blocked,List.mem_flatMap]
    constructor
    · intro given
      obtain ⟨rule,member,q,reading,blocks⟩ := given
      exact ⟨q,⟨rule,member,reading⟩,blocks⟩
    · intro given
      obtain ⟨q,⟨rule,member,reading⟩,blocks⟩ := given
      exact ⟨rule,member,q,reading,blocks⟩
  have other : '_' ≠ '.' := by decide
  have unused : ∀ q ∈ texts.flatMap (patterns parser), q.closed = false → '_' ∉ q.host := by
    intro q member still underscore
    obtain ⟨rule,_,reading⟩ := List.mem_flatMap.mp member
    exact absurd (patterns_open parser reading still '_' underscore) (by decide)
  have one (p : Pattern Char) : (∀ domain, p.Blocks '.' domain → Blocked parser texts domain) ↔
      ∃ q, Kept parser rules q ∧ q.Above '.' p := by
    have all := one_above '.' (texts.flatMap (patterns parser)) p other unused (fun _ => True) fun _ => trivial
    simpa only [blocked,kept,true_imp_iff] using all
  constructor
  · rintro ⟨listed,run,blocks,-⟩ p member
    rw [executeSync_exact] at run
    cases run
    apply (one p).mp
    intro domain meets
    exact blocks domain ((blocked_candidates parser rules domain).mpr ⟨p,member,meets⟩)
  · intro covered
    refine ⟨texts,executeSync_exact parser rules,?_,others_kept parser rules⟩
    intro domain meets
    obtain ⟨p,member,blocks⟩ := (blocked_candidates parser rules domain).mp meets
    exact (one p).mpr (covered p member) domain blocks

-- A closed candidate is only lost to inherited names: its topmost listed
-- parent is kept otherwise.
theorem closed_covered (rules : List Text) (member : ⟨true,hostname⟩ ∈ candidates parser rules) (nonempty : hostname ≠ [])
    (own : ∀ name ∈ inherited, ¬ Within '.' name hostname) :
    ∃ q, Kept parser rules q ∧ q.Above '.' ⟨true,hostname⟩ := by
  let up (name : Text) := parents '.' name.tail
  have narrow (name : Text) : ∀ part ∈ up name, Within '.' part name ∧ part.length < name.length := by
    intro part above
    cases name with
    | nil => cases above
    | cons c rest =>
      have shorter := parents_shorter '.' above
      obtain ⟨front,same⟩ := (mem_parents '.').mp above
      refine ⟨.inr ⟨c :: front,congrArg (c :: ·) same⟩,?_⟩
      exact Nat.lt_succ_of_lt shorter
  obtain ⟨root,⟨named,p,inside,rfl⟩,low,top⟩ := root_above '.' up (fun name part above => (narrow name part above).1)
    (fun name part above => (narrow name part above).2) (fun name => name ≠ [] ∧ ∃ p ∈ candidates parser rules, p.host = name)
    ⟨nonempty,_,member,rfl⟩
  have clean (name : Text) (within : Within '.' name hostname) : name ∉ inherited := fun bad => own name bad within
  obtain ⟨q,first⟩ : ∃ q, (candidates parser rules).find? (·.host = p.host) = some q := by
    apply Option.isSome_iff_exists.mp
    exact List.find?_isSome.mpr ⟨p,inside,decide_eq_true rfl⟩
  have same : q.host = p.host := by simpa using List.find?_some first
  refine ⟨q,.inl ⟨same ▸ named,same ▸ clean _ low,same ▸ first,?_⟩,above_within '.' q (same ▸ low)⟩
  rw [same]
  rintro parent above (bad | listed)
  · exact clean parent (within_trans '.' (narrow _ parent above).1 low) bad
  · exact top parent above listed

end Coverage

section Runs

theorem basicParser_reads : ReadsBlocking basicParser := by
  intro hostname _
  rw [basicParser_anchored (blocking_bars hostname) (trim_blocking hostname)]

-- A name of Object.prototype counts as listed.
example : executeSync basicParser ["0.0.0.0 constructor".toList] = .ok [] := by decide

theorem subdomain_compresses :
    LosesNothing basicParser ["0.0.0.0 www.example.org".toList,"||example.org^".toList] := by
  apply (compress_exact basicParser basicParser_reads _).mpr
  have listed : candidates basicParser ["0.0.0.0 www.example.org".toList,"||example.org^".toList] =
      [⟨true,"www.example.org".toList⟩,⟨true,"example.org".toList⟩] := by decide
  have own : ∀ p ∈ [Pattern.mk true "www.example.org".toList,⟨true,"example.org".toList⟩],
      p.closed = true ∧ p.host ≠ [] ∧ ∀ name ∈ inherited, ¬ (name = p.host ∨ name ∈ parents '.' p.host) := by decide
  intro p member
  obtain ⟨closed,nonempty,clean⟩ := own p (listed ▸ member)
  obtain ⟨kind,hostname⟩ := p
  cases closed
  exact closed_covered basicParser _ member nonempty fun name bad within => clean name bad ((within_exact '.').mp within)

-- The table holds `||example.com` for present as soon as it holds
-- `||example.com^`.
theorem open_rule_lost :
    ReadsBlocking basicParser ∧ ¬ LosesNothing basicParser ["||example.com^".toList,"||example.com".toList] := by
  refine ⟨basicParser_reads,?_⟩
  intro given
  obtain ⟨listed,run,blocks,-⟩ := given
  have result : executeSync basicParser ["||example.com^".toList,"||example.com".toList] = .ok ["||example.com^".toList] := by
    decide
  rw [result] at run
  cases run
  have blocked : Blocked basicParser (["||example.com^".toList,"||example.com".toList].filter (compressible basicParser))
      "example.community".toList := by
    refine ⟨"||example.com".toList,by decide,⟨false,"example.com".toList⟩,by decide,?_⟩
    exact open_blocks_append '.' (blocks_own '.' ⟨false,"example.com".toList⟩) "munity".toList
  obtain ⟨rule,member,q,reading,meets⟩ := blocks _ blocked
  obtain rfl := List.mem_singleton.mp member
  have only : patterns basicParser "||example.com^".toList = [⟨true,"example.com".toList⟩] := by decide
  rw [only] at reading
  obtain rfl := List.mem_singleton.mp reading
  have inside := (within_exact '.').mp ((closed_blocks '.').mp meets)
  exact absurd inside (by decide)

end Runs

end AdblockCompiler.Compress
