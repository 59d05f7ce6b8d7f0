import AdblockCompiler.Header
import AdblockCompiler.Rules

namespace AdblockCompiler.Formatters
open JsText Rules Header

inductive OutputFormat where
  | Adblock | Hosts | Dnsmasq | PiHole | JSON | DoH | Unbound
  deriving DecidableEq, Repr

def OutputFormat.text : OutputFormat → Text
  | .Adblock => "adblock".toList
  | .Hosts => "hosts".toList
  | .Dnsmasq => "dnsmasq".toList
  | .PiHole => "pihole".toList
  | .JSON => "json".toList
  | .DoH => "doh".toList
  | .Unbound => "unbound".toList

structure FormatterOptions where
  includeHeader : Bool := true
  listName : Text := "Filter List".toList
  hostsIp : Text := "0.0.0.0".toList
  includeLocalhost : Bool := false

structure FormatterResult where
  content : Text
  ruleCount : Nat
  skippedCount : Nat
  format : OutputFormat
  deriving DecidableEq, Repr

-- The characters of /^\|\|([a-z0-9.-]+)\^?$/i.
def isNameChar (c : Char) : Bool := c.isAlphanum || c == '-' || c == '.'

def simplePattern (rule : Text) : Option Text := anchoredName isNameChar rule

-- The rules that extractHostname does not look at: the empty one, and what
-- starts like a comment or an exception.
def passedOver (rule : Text) : Bool := rule = [] || startsWith rule ['!'] || startsWith rule ['#'] || startsWith rule ['@','@']

def generateHeader (options : FormatterOptions) (now : Date) (commentMark : Text) : List Text :=
  [commentMark ++ ' ' :: options.listName,
    commentMark ++ " Generated by ".toList ++ PACKAGE_NAME ++ " v".toList ++ VERSION,
    commentMark ++ " Last updated: ".toList ++ now.toISOString,
    []]

def whenIncluded (options : FormatterOptions) (now : Date) : List Text :=
  if options.includeHeader then generateHeader options now ['#'] else []

section Format
variable (parser : RuleParser)

def extractHostname (rule : Text) : Option Text :=
  if passedOver rule then none
  else
    let parsed := loadAdblockRuleProperties parser rule
    match if parsed.whitelist then none else parsed.hostname with
    | some hostname => some hostname
    | none => if isJustDomain rule then some rule else simplePattern rule

-- The state of the loop over the rules.
structure Scan where
  lines : List Text
  seenHostnames : List Text := []
  ruleCount : Nat := 0
  skippedCount : Nat := 0

def Scan.visit (lineOf : Text → Text) (scan : Scan) (rule : Text) : Scan :=
  match extractHostname parser rule with
  | some hostname =>
    if hostname ≠ [] ∧ hostname ∉ scan.seenHostnames then
      { scan with
        lines := scan.lines ++ [lineOf hostname]
        seenHostnames := scan.seenHostnames ++ [hostname]
        ruleCount := scan.ruleCount+1 }
    else scan
  | none => if rule ≠ [] ∧ startsWith rule ['!'] = false then { scan with skippedCount := scan.skippedCount+1 } else scan

-- What the five formats share: some lines first, then one for each new hostname.
def formatLines (format : OutputFormat) (first : List Text) (lineOf : Text → Text) (rules : List Text) : FormatterResult :=
  let scan := rules.foldl (Scan.visit parser lineOf) { lines := first }
  ⟨['\n'].intercalate scan.lines,scan.ruleCount,scan.skippedCount,format⟩

variable (options : FormatterOptions) (now : Date)

def localhostLines : List Text :=
  if options.includeLocalhost then ["127.0.0.1 localhost".toList,"::1 localhost".toList,[]] else []

def HostsFormatter.format : List Text → FormatterResult :=
  formatLines parser .Hosts (whenIncluded options now ++ localhostLines options) fun hostname => options.hostsIp ++ ' ' :: hostname

def DnsmasqFormatter.format : List Text → FormatterResult :=
  formatLines parser .Dnsmasq (whenIncluded options now) fun hostname => "address=/".toList ++ hostname ++ ['/']

def PiHoleFormatter.format : List Text → FormatterResult :=
  formatLines parser .PiHole (whenIncluded options now) fun hostname => hostname

def UnboundFormatter.format : List Text → FormatterResult :=
  formatLines parser .Unbound (whenIncluded options now ++ ["server:".toList]) fun hostname =>
    "    local-zone: \"".toList ++ hostname ++ "\" always_nxdomain".toList

def DoHFormatter.format : List Text → FormatterResult := formatLines parser .DoH [] fun hostname => hostname

end Format

-- The formats of resolvers, as one.
inductive DnsFormatter where
  | Hosts | Dnsmasq | PiHole | Unbound | DoH
  deriving DecidableEq, Repr

def DnsFormatter.format (parser : RuleParser) (options : FormatterOptions) (now : Date) : DnsFormatter → List Text → FormatterResult
  | .Hosts => HostsFormatter.format parser options now
  | .Dnsmasq => DnsmasqFormatter.format parser options now
  | .PiHole => PiHoleFormatter.format parser options now
  | .Unbound => UnboundFormatter.format parser options now
  | .DoH => DoHFormatter.format parser

def DnsFormatter.first (options : FormatterOptions) (now : Date) : DnsFormatter → List Text
  | .Hosts => whenIncluded options now ++ localhostLines options
  | .Unbound => whenIncluded options now ++ ["server:".toList]
  | .DoH => []
  | _ => whenIncluded options now

def DnsFormatter.lineOf (options : FormatterOptions) : DnsFormatter → Text → Text
  | .Hosts => fun hostname => options.hostsIp ++ ' ' :: hostname
  | .Dnsmasq => fun hostname => "address=/".toList ++ hostname ++ ['/']
  | .Unbound => fun hostname => "    local-zone: \"".toList ++ hostname ++ "\" always_nxdomain".toList
  | _ => fun hostname => hostname

-- The hostnames that a list of rules is turned into, in the order of the lines.
def emitted (parser : RuleParser) (rules : List Text) : List Text :=
  (rules.foldl (Scan.visit parser fun hostname => hostname) { lines := [] }).seenHostnames

section Scanning
variable (parser : RuleParser)

-- What the scan holds after some rules, whatever its lines look like.
structure Scanned (first : List Text) (lineOf : Text → Text) (rules : List Text) (scan : Scan) : Prop where
  lines : scan.lines = first ++ scan.seenHostnames.map lineOf
  counted : scan.ruleCount = scan.seenHostnames.length
  distinct : scan.seenHostnames.Nodup
  found : ∀ hostname, hostname ∈ scan.seenHostnames ↔ hostname ≠ [] ∧ ∃ rule ∈ rules, extractHostname parser rule = some hostname

theorem scanned_visit (rule : Text) (scanned : Scanned parser first lineOf rules scan) :
    Scanned parser first lineOf (rules ++ [rule]) (scan.visit parser lineOf rule) := by
  obtain ⟨lines,counted,distinct,found⟩ := scanned
  have one (hostname : Text) : (∃ other ∈ rules ++ [rule], extractHostname parser other = some hostname) ↔
      (∃ other ∈ rules, extractHostname parser other = some hostname) ∨ extractHostname parser rule = some hostname := by
    simp [or_and_right,exists_or]
  unfold Scan.visit
  cases extracted : extractHostname parser rule with
  | none =>
    have same : ∀ hostname, hostname ∈ scan.seenHostnames ↔
        hostname ≠ [] ∧ ∃ other ∈ rules ++ [rule], extractHostname parser other = some hostname := by
      intro hostname
      rw [found hostname,one,extracted]
      simp
    dsimp only
    split
    · exact ⟨lines,counted,distinct,same⟩
    · exact ⟨lines,counted,distinct,same⟩
  | some name =>
    dsimp only
    split
    · rename_i fresh
      refine ⟨?_,?_,?_,?_⟩
      · simp [lines]
      · simp [counted]
      · apply List.nodup_append.mpr
        refine ⟨distinct,List.nodup_singleton name,?_⟩
        intro old seen new same
        rw [List.mem_singleton.mp same]
        rintro rfl
        exact fresh.2 seen
      · intro hostname
        rw [List.mem_append,found hostname,one,extracted,List.mem_singleton,Option.some.injEq]
        constructor
        · rintro (⟨nonempty,old⟩ | rfl)
          · exact ⟨nonempty,.inl old⟩
          · exact ⟨fresh.1,.inr rfl⟩
        · rintro ⟨nonempty,old | rfl⟩
          · exact .inl ⟨nonempty,old⟩
          · exact .inr rfl
    · rename_i known
      refine ⟨lines,counted,distinct,?_⟩
      intro hostname
      rw [one,extracted,Option.some.injEq,and_or_left,← found hostname]
      constructor
      · exact .inl
      · rintro (old | ⟨nonempty,rfl⟩)
        · exact old
        · by_contra new
          exact known ⟨nonempty,new⟩

theorem scanned_all (first : List Text) (lineOf : Text → Text) (rules : List Text) :
    Scanned parser first lineOf rules (rules.foldl (Scan.visit parser lineOf) { lines := first }) := by
  have run (more before : List Text) (scan : Scan) (scanned : Scanned parser first lineOf before scan) :
      Scanned parser first lineOf (before ++ more) (more.foldl (Scan.visit parser lineOf) scan) := by
    induction more generalizing before scan with
    | nil => simpa using scanned
    | cons rule more ih => simpa using ih (before ++ [rule]) _ (scanned_visit parser rule scanned)
  exact run rules [] { lines := first } ⟨by simp,rfl,List.nodup_nil,fun hostname => by simp⟩

-- What is seen does not depend on the lines.
theorem seen_alike (rules : List Text) (lineOf : Text → Text) (one other : Scan) (same : one.seenHostnames = other.seenHostnames) :
    (rules.foldl (Scan.visit parser lineOf) one).seenHostnames =
      (rules.foldl (Scan.visit parser fun hostname => hostname) other).seenHostnames := by
  induction rules generalizing one other with
  | nil => exact same
  | cons rule rest ih =>
    apply ih
    unfold Scan.visit
    rw [same]
    split
    · split
      · rfl
      · exact same
    · split
      · rfl
      · exact same

theorem emitted_distinct (rules : List Text) : (emitted parser rules).Nodup := (scanned_all parser [] _ rules).distinct

theorem emitted_exact (rules : List Text) (hostname : Text) :
    hostname ∈ emitted parser rules ↔ hostname ≠ [] ∧ ∃ rule ∈ rules, extractHostname parser rule = some hostname :=
  (scanned_all parser [] _ rules).found hostname

-- The text of every format is its first lines and one line for each hostname.
theorem format_exact (options : FormatterOptions) (now : Date) (formatter : DnsFormatter) (rules : List Text) :
    (formatter.format parser options now rules).content =
        ['\n'].intercalate (formatter.first options now ++ (emitted parser rules).map (formatter.lineOf options)) ∧
      (formatter.format parser options now rules).ruleCount = (emitted parser rules).length := by
  have whole : formatter.format parser options now rules =
      formatLines parser (formatter.format parser options now []).format (formatter.first options now) (formatter.lineOf options) rules := by
    cases formatter <;> rfl
  have scanned := scanned_all parser (formatter.first options now) (formatter.lineOf options) rules
  have seen := seen_alike parser rules (formatter.lineOf options) { lines := formatter.first options now } { lines := [] } rfl
  rw [whole,formatLines,scanned.lines,scanned.counted,seen]
  exact ⟨rfl,rfl⟩

end Scanning

-- `||hostname` and `||hostname^` over the characters of a name.
structure Written (hostname rule : Text) : Prop where
  valid : hostname ≠ [] ∧ ∀ c ∈ hostname, isNameChar c = true
  text : rule = anchored hostname ∨ rule = blocking hostname

theorem simplePattern_exact : simplePattern rule = some hostname ↔ Written hostname rule := by
  rw [simplePattern,anchoredName_exact isNameChar (by decide)]
  exact ⟨fun ⟨valid,text⟩ => ⟨valid,text⟩,fun ⟨valid,text⟩ => ⟨valid,text⟩⟩

-- What a hostname is read from, and which of these rules block it whatever the
-- client or the request is.
section Reading
variable (parser : RuleParser)

inductive Reads (rule hostname : Text) : Prop where
  | network (ast : NetworkRule) (parsed : AGTreeParser.parse parser rule = some (.network ast)) (blocks : ast.exception = false)
      (named : patternHostname ast.pattern = some hostname) (looked : passedOver rule = false)
  | domain (plain : isJustDomain rule = true) (same : rule = hostname)
  | written (written : Written hostname rule)

-- A plain domain, or `||hostname^` and `||hostname` with nothing else, as the
-- parser reads the rule or as it is written.
inductive Unconditional (rule hostname : Text) : Prop where
  | domain (plain : isJustDomain rule = true) (same : rule = hostname)
  | network (valid : Hostname hostname)
      (pattern : networkPattern parser rule = some (anchored hostname) ∨ networkPattern parser rule = some (blocking hostname))
  | written (written : Written hostname rule)

-- A blocking rule for the hostname that its modifiers restrict or disable.
structure Restricted (rule hostname : Text) (ast : NetworkRule) : Prop where
  parsed : AGTreeParser.parse parser rule = some (.network ast)
  blocks : ast.exception = false
  modified : ast.modifiers ≠ []
  named : patternHostname ast.pattern = some hostname
  looked : passedOver rule = false

theorem parsed_hostname (rule : Text) :
    (if (loadAdblockRuleProperties parser rule).whitelist then none else (loadAdblockRuleProperties parser rule).hostname) =
      match AGTreeParser.parse parser rule with
      | some (.network ast) => if ast.exception then none else patternHostname ast.pattern
      | _ => none := by
  unfold loadAdblockRuleProperties
  rw [parse_trim]
  cases AGTreeParser.parse parser rule with
  | none => cases startsWith rule "@@".toList <;> rfl
  | some ast =>
    cases ast with
    | network ast => rfl
    | _ => cases startsWith rule "@@".toList <;> rfl

theorem extract_reads (extracted : extractHostname parser rule = some hostname) : Reads parser rule hostname := by
  unfold extractHostname at extracted
  split at extracted
  · cases extracted
  · rename_i looked
    dsimp only at extracted
    rw [parsed_hostname] at extracted
    split at extracted
    · rename_i name found
      cases extracted
      split at found
      · rename_i ast parsed
        split at found
        · cases found
        · rename_i blocks
          exact .network ast parsed (by simpa using blocks) found (by simpa using looked)
      · cases found
    · split at extracted
      · rename_i plain
        exact .domain plain (Option.some.inj extracted)
      · exact .written (simplePattern_exact.mp extracted)

-- The first place where a hostname is looked for takes what the parser says.
theorem network_extracted (parsed : AGTreeParser.parse parser rule = some (.network ast)) (blocks : ast.exception = false)
    (named : patternHostname ast.pattern = some hostname) (looked : passedOver rule = false) :
    extractHostname parser rule = some hostname := by
  unfold extractHostname
  rw [looked,if_neg Bool.false_ne_true]
  dsimp only
  rw [parsed_hostname,parsed]
  simp only [blocks,Bool.false_eq_true,if_false,named]

theorem network_unconditional (parsed : AGTreeParser.parse parser rule = some (.network ast)) (blocks : ast.exception = false)
    (named : patternHostname ast.pattern = some hostname) (unmodified : ast.modifiers = []) : Unconditional parser rule hostname := by
  obtain ⟨valid,pattern⟩ := patternHostname_exact.mp named
  have read : networkPattern parser rule = some ast.pattern := by simp [networkPattern,parsed,blocks,unmodified]
  rcases pattern with same | same
  · exact .network valid (.inl (by rw [read,same]))
  · exact .network valid (.inr (by rw [read,same]))

-- Every hostname in the output is blocked unconditionally somewhere in the list
-- exactly if this holds of the hostnames of restricted rules.
theorem emitted_unconditional_exact (rules : List Text) (formatter : DnsFormatter) (options : FormatterOptions) (now : Date) :
    (formatter.format parser options now rules).content =
        ['\n'].intercalate (formatter.first options now ++ (emitted parser rules).map (formatter.lineOf options)) ∧
      ((∀ hostname ∈ emitted parser rules, ∃ rule ∈ rules, Unconditional parser rule hostname) ↔
        ∀ rule ∈ rules, ∀ hostname ast, Restricted parser rule hostname ast → ∃ other ∈ rules, Unconditional parser other hostname) := by
  refine ⟨(format_exact parser options now formatter rules).1,?_,?_⟩
  · rintro unconditional rule member hostname ast ⟨parsed,blocks,modified,named,looked⟩
    apply unconditional hostname
    have nonempty := (patternHostname_exact.mp named).1.1
    exact (emitted_exact parser rules hostname).mpr ⟨nonempty,rule,member,network_extracted parser parsed blocks named looked⟩
  · intro covered hostname member
    obtain ⟨nonempty,rule,inside,extracted⟩ := (emitted_exact parser rules hostname).mp member
    cases extract_reads parser extracted with
    | network ast parsed blocks named looked =>
      by_cases unmodified : ast.modifiers = []
      · exact ⟨rule,inside,network_unconditional parser parsed blocks named unmodified⟩
      · exact covered rule inside hostname ast ⟨parsed,blocks,unmodified,named,looked⟩
    | domain plain same => exact ⟨rule,inside,.domain plain same⟩
    | written written => exact ⟨rule,inside,.written written⟩

end Reading

-- A blocking rule with one modifier behind a `$`.
def modifierParser : RuleParser := fun text =>
  let option := (text.dropWhile (· ≠ '$')).drop 1
  if startsWith text ['|','|'] then
    some (.network {
      pattern := text.takeWhile (· ≠ '$')
      modifiers := if option = [] then [] else [{ name := option.takeWhile (· ≠ '='), value := some ((option.dropWhile (· ≠ '=')).drop 1) }] })
  else none

-- A rule for one client blocks its hostname for everyone.
theorem client_rule_emitted : ¬∀ rules, ∀ hostname ∈ emitted modifierParser rules, ∃ rule ∈ rules, Unconditional modifierParser rule hostname := by
  intro all
  obtain ⟨rule,member,unconditional⟩ := all ["||ads.example.com^$client=1.2.3.4".toList] "ads.example.com".toList (by decide)
  obtain rfl := List.mem_singleton.mp member
  cases unconditional with
  | domain plain same => exact absurd same (by decide)
  | network valid pattern => exact absurd pattern (by decide)
  | written written => exact absurd written.text (by decide)

-- What AGTree does with the text of a network rule: `@@` marks an exception,
-- modifiers stand behind a `$`, and without either the text is the pattern.
structure Textual (parser : RuleParser) : Prop where
  exception : ∀ {text rule}, AGTreeParser.parse parser text = some (.network rule) → rule.exception = startsWith (trim text) ['@','@']
  unmodified : ∀ {text rule}, AGTreeParser.parse parser text = some (.network rule) → '$' ∉ text → rule.modifiers = []
  pattern : ∀ {text rule}, AGTreeParser.parse parser text = some (.network rule) → rule.exception = false → rule.modifiers = [] →
    rule.pattern = trim text

section Names

theorem domain_chars (domain : isJustDomain rule = true) : ∀ c ∈ rule, isNameChar c = true := by
  simp only [isJustDomain,DOMAIN_REGEX,Bool.and_eq_true] at domain
  obtain ⟨-,-,labels⟩ := domain
  have named (name : Text) (labels : (name.splitOn '.').all domainLabel = true) : ∀ c ∈ name, isNameChar c = true := by
    intro c member
    have whole : ['.'].intercalate (name.splitOn '.') = name := List.intercalate_splitOn '.'
    rw [← whole] at member
    rcases mem_join member with rfl | ⟨label,inside,own⟩
    · decide
    · have checked := List.all_eq_true.mp labels label inside
      simp only [domainLabel,Bool.and_eq_true] at checked
      have char : isLabelChar c = true := List.all_eq_true.mp checked.1.1.1.1 c own
      rw [isNameChar,show (c.isAlphanum || c == '-') = true from char,Bool.true_or]
  split at labels
  · rename_i last
    intro c member
    rw [← List.dropLast_append_getLast? '.' last] at member
    rcases List.mem_append.mp member with front | dot
    · exact named _ labels c front
    · rw [List.mem_singleton.mp dot]
      decide
  · exact named _ labels

theorem nameChar_not_space (char : isNameChar c = true) : isSpace c = false := by
  simp only [isNameChar,Bool.or_eq_true,beq_iff_eq] at char
  rcases char with (letter | rfl) | rfl
  · exact wordChar_not_space (by rw [isWordChar,letter,Bool.true_or])
  · decide
  · decide

theorem trim_solid (solid : ∀ c ∈ text, isSpace c = false) : trim text = text := by
  apply trim_trimmed
  constructor
  · rintro c rest rfl
    exact solid c (by simp)
  · rintro c rest rfl
    exact solid c (by simp)

-- Texts of names, bars and carets: nothing in them is a blank, a `$` or the
-- mark of a comment or of an exception.
def Solid (text : Text) : Prop := text ≠ [] ∧ ∀ c ∈ text, c = '|' ∨ c = '^' ∨ isNameChar c = true

theorem solid_domain (domain : isJustDomain rule = true) : Solid rule := by
  refine ⟨?_,fun c member => .inr (.inr (domain_chars domain c member))⟩
  rintro rfl
  cases domain

theorem solid_written (written : Written hostname rule) : Solid rule := by
  obtain ⟨⟨-,valid⟩,rfl | rfl⟩ := written
  · refine ⟨List.cons_ne_nil _ _,fun c member => ?_⟩
    simp only [anchored,List.mem_cons] at member
    rcases member with same | same | inside
    · exact .inl same
    · exact .inl same
    · exact .inr (.inr (valid c inside))
  · refine ⟨List.cons_ne_nil _ _,fun c member => ?_⟩
    simp only [blocking,anchored,List.cons_append,List.mem_cons,List.mem_append,List.not_mem_nil,or_false] at member
    rcases member with same | same | inside | same
    · exact .inl same
    · exact .inl same
    · exact .inr (.inr (valid c inside))
    · exact .inr (.inl same)

theorem solid_trim (solid : Solid rule) : trim rule = rule := by
  apply trim_solid
  intro c member
  rcases solid.2 c member with rfl | rfl | char
  · decide
  · decide
  · exact nameChar_not_space char

theorem solid_without (solid : Solid rule) (bars : d ≠ '|' ∧ d ≠ '^' ∧ isNameChar d = false) : d ∉ rule := by
  intro member
  rcases solid.2 d member with same | same | char
  · exact bars.1 same
  · exact bars.2.1 same
  · rw [bars.2.2] at char
    cases char

theorem starts_member (starts : startsWith text (c :: rest) = true) : c ∈ text := by
  obtain ⟨tail,rfl⟩ := startsWith_iff.mp starts
  exact List.mem_cons_self

theorem solid_looked (solid : Solid rule) : passedOver rule = false := by
  have without (d : Char) (bars : d ≠ '|' ∧ d ≠ '^' ∧ isNameChar d = false) (more : Text) : startsWith rule (d :: more) = false := by
    by_contra starts
    exact solid_without solid bars (starts_member (by simpa using starts))
  simp only [passedOver,without '!' (by decide),without '#' (by decide),without '@' (by decide),Bool.or_false,decide_eq_false_iff_not]
  exact solid.1

variable (parser : RuleParser)

-- A solid text that is read as a network rule is read for its own pattern.
theorem solid_parsed (textual : Textual parser) (solid : Solid rule) (parsed : AGTreeParser.parse parser rule = some (.network ast)) :
    ast.exception = false ∧ ast.modifiers = [] ∧ ast.pattern = rule := by
  have blocks : ast.exception = false := by
    rw [textual.exception parsed,solid_trim solid]
    by_contra starts
    have mark : '@' ∈ rule := starts_member (by simpa using starts)
    exact solid_without solid (by decide) mark
  have dollar : '$' ∉ rule := solid_without solid (by decide)
  have unmodified := textual.unmodified parsed dollar
  refine ⟨blocks,unmodified,?_⟩
  rw [textual.pattern parsed blocks unmodified,solid_trim solid]

-- What the parser gives first is what the text gives, or nothing.
theorem solid_first (textual : Textual parser) (solid : Solid rule) (otherwise : Option Text)
    (written : ∀ name, patternHostname rule = some name → otherwise = some name) :
    (match (if (loadAdblockRuleProperties parser rule).whitelist then none else (loadAdblockRuleProperties parser rule).hostname) with
      | some name => some name
      | none => otherwise) = otherwise := by
  rw [parsed_hostname]
  cases parsed : AGTreeParser.parse parser rule with
  | none => rfl
  | some ast =>
    cases ast with
    | network ast =>
      obtain ⟨blocks,-,same⟩ := solid_parsed parser textual solid parsed
      simp only [blocks,Bool.false_eq_true,if_false,same]
      cases named : patternHostname rule with
      | none => rfl
      | some name => exact (written name named).symm
    | _ => rfl

theorem solid_extracted (textual : Textual parser) (solid : Solid rule)
    (written : ∀ name, patternHostname rule = some name → (if isJustDomain rule then some rule else simplePattern rule) = some name) :
    extractHostname parser rule = if isJustDomain rule then some rule else simplePattern rule := by
  rw [extractHostname,solid_looked solid,if_neg Bool.false_ne_true]
  exact solid_first parser textual solid _ written

theorem hostname_name (hostname : Hostname name) : name ≠ [] ∧ ∀ c ∈ name, isNameChar c = true := by
  refine ⟨hostname.1,fun c member => ?_⟩
  have char := hostname.2 c member
  simp only [isHostnameChar,isNameChar,Char.isAlphanum,Char.isAlpha,Bool.or_eq_true] at char ⊢
  tauto

theorem patternHostname_written (named : patternHostname rule = some name) : Written name rule := by
  obtain ⟨hostname,text⟩ := patternHostname_exact.mp named
  exact ⟨hostname_name hostname,text⟩

theorem written_no_domain (written : Written name rule) : isJustDomain rule = false := by
  by_contra domain
  have bar : '|' ∈ rule := by
    rcases written.text with rfl | rfl
    · exact List.mem_cons_self
    · exact List.mem_cons_self
  have char := domain_chars (by simpa using domain) '|' bar
  exact absurd char (by decide)

theorem domain_extracted (textual : Textual parser) (domain : isJustDomain rule = true) : extractHostname parser rule = some rule := by
  rw [solid_extracted parser textual (solid_domain domain) ?_,if_pos domain]
  intro name named
  rw [written_no_domain (patternHostname_written named)] at domain
  cases domain

theorem written_extracted (textual : Textual parser) (written : Written hostname rule) : extractHostname parser rule = some hostname := by
  have simple := simplePattern_exact.mpr written
  have noDomain := written_no_domain written
  rw [solid_extracted parser textual (solid_written written) ?_,noDomain,if_neg Bool.false_ne_true,simple]
  intro name named
  rw [noDomain,if_neg Bool.false_ne_true]
  exact simplePattern_exact.mpr (patternHostname_written named)

theorem reads_extracted (textual : Textual parser) (reads : Reads parser rule hostname) : extractHostname parser rule = some hostname := by
  cases reads with
  | network ast parsed blocks named looked => exact network_extracted parser parsed blocks named looked
  | domain plain same => rw [domain_extracted parser textual plain,same]
  | written written => exact written_extracted parser textual written

theorem emitted_reads (textual : Textual parser) (rules : List Text) (nonempty : hostname ≠ []) :
    hostname ∈ emitted parser rules ↔ ∃ rule ∈ rules, Reads parser rule hostname := by
  rw [emitted_exact]
  constructor
  · rintro ⟨-,rule,member,extracted⟩
    exact ⟨rule,member,extract_reads parser extracted⟩
  · rintro ⟨rule,member,reads⟩
    exact ⟨nonempty,rule,member,reads_extracted parser textual reads⟩

end Names

section Losses
variable (parser : RuleParser) (isHostname : Text → Prop)

-- The hostnames that a rule of the list names for blocking, whatever is taken
-- for a hostname: those of a hosts line, a plain domain, and `||hostname^`.
inductive Names (rule hostname : Text) : Prop where
  | hosts (hostnames : List Text) (parsed : AGTreeParser.parse parser rule = some (.host hostnames)) (member : hostname ∈ hostnames)
  | domain (plain : isJustDomain hostname = true ∨ isHostname hostname ∧ '.' ∈ hostname) (same : trim rule = hostname)
  | network (host : isHostname hostname) (pattern : networkPattern parser rule = some (blocking hostname))

-- The names that the rule itself is not turned into: hosts lines are not looked
-- at, other characters than letters of ASCII, digits, dots and dashes are not
-- read, and capital letters only where nothing stands around the rule.
inductive Missed (rule hostname : Text) : Prop where
  | hosts (hostnames : List Text) (parsed : AGTreeParser.parse parser rule = some (.host hostnames)) (member : hostname ∈ hostnames)
  | domain (plain : isJustDomain hostname = true ∨ isHostname hostname ∧ '.' ∈ hostname) (same : trim rule = hostname)
      (unread : isJustDomain rule = false)
  | outside (host : isHostname hostname) (pattern : networkPattern parser rule = some (blocking hostname))
      (char : hostname = [] ∨ ∃ c ∈ hostname, isNameChar c = false)
  | capital (host : isHostname hostname) (pattern : networkPattern parser rule = some (blocking hostname))
      (upper : ∃ c ∈ hostname, c.isUpper = true) (padded : trim rule ≠ rule)

theorem missed_names (missed : Missed parser isHostname rule hostname) : Names parser isHostname rule hostname := by
  cases missed with
  | hosts hostnames parsed member => exact .hosts hostnames parsed member
  | domain plain same unread => exact .domain plain same
  | outside host pattern char => exact .network host pattern
  | capital host pattern upper padded => exact .network host pattern

theorem networkPattern_exact : networkPattern parser rule = some pattern ↔
    AGTreeParser.parse parser rule = some (.network ⟨pattern,false,[]⟩) := by
  unfold networkPattern
  cases AGTreeParser.parse parser rule with
  | none => simp
  | some ast =>
    cases ast with
    | network ast =>
      obtain ⟨own,exception,modifiers⟩ := ast
      dsimp only
      constructor
      · intro plain
        split at plain
        · rename_i unmarked
          obtain ⟨rfl,rfl⟩ := unmarked
          cases plain
          rfl
        · cases plain
      · intro same
        cases same
        rfl
    | _ => simp

theorem reads_nonempty (reads : Reads parser rule hostname) : hostname ≠ [] := by
  cases reads with
  | network ast parsed blocks named looked => exact (patternHostname_exact.mp named).1.1
  | domain plain same => exact same ▸ (solid_domain plain).1
  | written written => exact written.valid.1

theorem trim_marked (solid : isSpace c = false) (rest : Text) : trim (c :: rest) = c :: trimEnd rest := by
  have word : Trimmed [c] := trimmed_ends (by simp [solid]) (by simp [solid])
  exact trim_word allSpace_nil word (List.cons_ne_nil c []) rest

-- Only blanks can stand in front of the bars.
theorem bars_looked (text : trim rule = blocking hostname) : passedOver rule = false := by
  cases rule with
  | nil => cases text
  | cons c rest =>
    cases blank : isSpace c with
    | true =>
      have mark (d : Char) (solid : isSpace d = false) (more : Text) : startsWith (c :: rest) (d :: more) = false := by
        have differ : d ≠ c := by
          rintro rfl
          rw [blank] at solid
          cases solid
        rw [startsWith,List.isPrefixOf_cons_cons,beq_false_of_ne differ,Bool.false_and]
      simp [passedOver,mark '!' (by decide),mark '#' (by decide),mark '@' (by decide)]
    | false =>
      have bar : c = '|' := (List.cons.inj ((trim_marked blank rest).symm.trans text)).1
      rw [bar]
      rfl

theorem names_read (textual : Textual parser) (names : Names parser isHostname rule hostname) :
    Missed parser isHostname rule hostname ∨ Reads parser rule hostname := by
  cases names with
  | hosts hostnames parsed member => exact .inl (.hosts hostnames parsed member)
  | domain plain same =>
    cases own : isJustDomain rule with
    | false => exact .inl (.domain plain same own)
    | true => exact .inr (.domain own ((solid_trim (solid_domain own)).symm.trans same))
  | network host pattern =>
    have parsed := (networkPattern_exact parser).mp pattern
    have text : blocking hostname = trim rule := textual.pattern parsed rfl rfl
    by_cases char : hostname = [] ∨ ∃ c ∈ hostname, isNameChar c = false
    · exact .inl (.outside host pattern char)
    · obtain ⟨some_,none_⟩ := not_or.mp char
      have chars : ∀ c ∈ hostname, isNameChar c = true := by
        intro c member
        by_contra other
        exact none_ ⟨c,member,by simpa using other⟩
      by_cases upper : ∃ c ∈ hostname, c.isUpper = true
      · by_cases padded : trim rule = rule
        · rw [padded] at text
          exact .inr (.written ⟨⟨some_,chars⟩,.inr text.symm⟩)
        · exact .inl (.capital host pattern upper padded)
      · have lower : Hostname hostname := by
          refine ⟨some_,fun c member => ?_⟩
          have char := chars c member
          have small : c.isUpper = false := by
            by_contra capital
            exact upper ⟨c,member,by simpa using capital⟩
          simp only [isNameChar,isHostnameChar,Char.isAlphanum,Char.isAlpha,small,Bool.false_or] at char ⊢
          exact char
        exact .inr (.network _ parsed rfl (patternHostname_exact.mpr ⟨lower,.inr rfl⟩) (bars_looked text.symm))

-- No named hostname is lost exactly if the missed ones are read from some rule.
theorem names_emitted_exact (textual : Textual parser) (rules : List Text) (formatter : DnsFormatter) (options : FormatterOptions)
    (now : Date) :
    (formatter.format parser options now rules).content =
        ['\n'].intercalate (formatter.first options now ++ (emitted parser rules).map (formatter.lineOf options)) ∧
      (((∀ rule ∈ rules, ∀ hostname, Names parser isHostname rule hostname → (emitted parser rules).count hostname = 1) ∧
          (formatter.format parser options now rules).ruleCount = (emitted parser rules).length) ↔
        ∀ rule ∈ rules, ∀ hostname, Missed parser isHostname rule hostname → ∃ other ∈ rules, Reads parser other hostname) := by
  obtain ⟨content,counted⟩ := format_exact parser options now formatter rules
  have once (hostname : Text) (nonempty : hostname ≠ []) :
      (emitted parser rules).count hostname = 1 ↔ ∃ rule ∈ rules, Reads parser rule hostname := by
    rw [← emitted_reads parser textual rules nonempty]
    constructor
    · intro one
      exact List.count_pos_iff.mp (by rw [one]; exact Nat.one_pos)
    · intro member
      exact List.count_eq_one_of_mem (emitted_distinct parser rules) member
  refine ⟨content,?_,?_⟩
  · rintro ⟨all,-⟩ rule member hostname missed
    have one := all rule member hostname (missed_names parser isHostname missed)
    have inside : hostname ∈ emitted parser rules := List.count_pos_iff.mp (by rw [one]; exact Nat.one_pos)
    exact (emitted_reads parser textual rules ((emitted_exact parser rules hostname).mp inside).1).mp inside
  · intro found
    refine ⟨?_,counted⟩
    intro rule member hostname names
    rcases names_read parser isHostname textual names with missed | reads
    · obtain ⟨other,inside,reads⟩ := found rule member hostname missed
      exact (once hostname (reads_nonempty parser reads)).mpr ⟨other,inside,reads⟩
    · exact (once hostname (reads_nonempty parser reads)).mpr ⟨rule,member,reads⟩

end Losses

theorem basicParser_textual : Textual basicParser := by
  have shape {text : Text} {rule : NetworkRule} (parsed : AGTreeParser.parse basicParser text = some (.network rule)) :
      startsWith (trim text) ['|','|'] = true ∧ rule = { pattern := trim text } := by
    unfold AGTreeParser.parse basicParser at parsed
    split at parsed
    · rename_i bars
      cases parsed
      exact ⟨bars,rfl⟩
    · split at parsed
      · cases parsed
      · split at parsed <;> cases parsed
  refine ⟨?_,?_,?_⟩
  · intro text rule parsed
    obtain ⟨bars,rfl⟩ := shape parsed
    obtain ⟨rest,same⟩ := startsWith_iff.mp bars
    rw [same]
    rfl
  · intro text rule parsed _
    rw [(shape parsed).2]
  · intro text rule parsed _ _
    rw [(shape parsed).2]

-- A hosts line for a name that another rule blocks in capital letters.
def covered : List Text := ["0.0.0.0 Example.com".toList,"||Example.com^".toList]

def dotted (hostname : Text) : Prop := '.' ∈ hostname ∧ '|' ∉ hostname ∧ ' ' ∉ hostname

theorem covered_emitted : (DnsFormatter.PiHole.format basicParser {} ⟨2026,1,1,0,0,0,0⟩ covered).content =
      ['\n'].intercalate (DnsFormatter.PiHole.first {} ⟨2026,1,1,0,0,0,0⟩ ++
        (emitted basicParser covered).map (DnsFormatter.PiHole.lineOf {})) ∧
    (∀ rule ∈ covered, ∀ hostname, Names basicParser dotted rule hostname → (emitted basicParser covered).count hostname = 1) ∧
    (DnsFormatter.PiHole.format basicParser {} ⟨2026,1,1,0,0,0,0⟩ covered).ruleCount = (emitted basicParser covered).length := by
  obtain ⟨content,exact_⟩ := names_emitted_exact basicParser dotted basicParser_textual covered .PiHole {} ⟨2026,1,1,0,0,0,0⟩
  refine ⟨content,exact_.mpr ?_⟩
  intro rule member hostname missed
  have line : AGTreeParser.parse basicParser "0.0.0.0 Example.com".toList = some (.host ["Example.com".toList]) := by decide
  have pattern : networkPattern basicParser "||Example.com^".toList = some (blocking "Example.com".toList) := by decide
  have written : Written "Example.com".toList "||Example.com^".toList := ⟨⟨by decide,every_char (by decide)⟩,.inr rfl⟩
  rcases List.mem_cons.mp member with rfl | later
  · have one : trim "0.0.0.0 Example.com".toList = "0.0.0.0 Example.com".toList := by decide
    cases missed with
    | hosts hostnames parsed inside =>
      rw [line] at parsed
      cases parsed
      cases List.mem_singleton.mp inside
      exact ⟨_,List.mem_cons_of_mem _ List.mem_cons_self,.written written⟩
    | domain plain same unread =>
      rw [one] at same
      subst same
      rcases plain with domain | ⟨⟨-,-,solid⟩,-⟩
      · exact absurd domain (by decide)
      · exact absurd (by decide) solid
    | outside host network char =>
      rw [networkPattern_exact,line] at network
      cases network
    | capital host network upper padded =>
      rw [networkPattern_exact,line] at network
      cases network
  · cases List.mem_singleton.mp later
    have one : trim "||Example.com^".toList = "||Example.com^".toList := by decide
    cases missed with
    | hosts hostnames parsed inside =>
      rw [(networkPattern_exact basicParser).mp pattern] at parsed
      cases parsed
    | domain plain same unread =>
      rw [one] at same
      subst same
      rcases plain with domain | ⟨⟨-,bars,-⟩,-⟩
      · exact absurd domain (by decide)
      · exact absurd (by decide) bars
    | outside host network char =>
      rw [pattern] at network
      have cut : anchored "Example.com".toList = anchored hostname := List.append_cancel_right (Option.some.inj network)
      obtain rfl : "Example.com".toList = hostname := (List.cons.inj (List.cons.inj cut).2).2
      rcases char with none_ | ⟨c,inside,other⟩
      · cases none_
      · rw [written.valid.2 c inside] at other
        cases other
    | capital host network upper padded => exact absurd one padded

-- A hosts line is not looked at, and neither is a name with an underscore or
-- with letters beyond ASCII.
theorem hosts_line_lost : Textual basicParser ∧
    (¬∀ rules, ∀ rule ∈ rules, ∀ hostname, Names basicParser dotted rule hostname → (emitted basicParser rules).count hostname = 1) ∧
    emitted basicParser ["||ad_tracker.example.com^".toList,"||münchen.example^".toList] = [] := by
  refine ⟨basicParser_textual,fun all => ?_,by decide⟩
  have lost := all ["0.0.0.0 example.com".toList] _ List.mem_cons_self "example.com".toList
    (.hosts ["example.com".toList] (by decide) List.mem_cons_self)
  exact absurd lost (by decide)

end AdblockCompiler.Formatters
