import AdblockCompiler.Compress
import AdblockCompiler.RemoveModifiers
import AdblockCompiler.SharedRegistry

-- The transformations that look at one line at a time, and the registry of all
-- transformations.
namespace AdblockCompiler.LineTransformations
open JsText Rules Config Pipeline SharedRegistry Validation

def StringUtils.isBlank (c : Char) : Bool := c = ' ' || c = '\t'
def StringUtils.trim (str : Text) : Text := (str.dropWhile isBlank).rdropWhile isBlank

-- NON_ASCII_REGEX
def containsNonAsciiCharacters (ruleText : Text) : Bool := ruleText.any fun c => 128 ≤ c.toNat

-- [^\s^$|=]
def isDomainChar (c : Char) : Bool := !isSpace c && c ≠ '^' && c ≠ '$' && c ≠ '|' && c ≠ '='

-- A dot with something on both of its sides: what [^\s^$|=]+(?:\.[^\s^$|=]+)+
-- matches of a run of its characters is then the whole run, else nothing.
def dotted (run : Text) : Bool := '.' ∈ run.tail.dropLast

-- The first group of DOMAIN_PATTERN_REGEX, which prefers the wildcard.
def wildcardOf (run : Text) : Text := if startsWith run "*.".toList ∧ dotted (run.drop 2) then "*.".toList else []

-- newUrl is the hostname of a new URL, none where the constructor throws.
section Punycode
variable (newUrl : Text → Option Text)

def domainToASCII (domain : Text) : Text := (newUrl ("http://".toList ++ domain)).getD domain

def convertRun (run : Text) : Text :=
  let wildcard := wildcardOf run
  let domain := run.drop wildcard.length
  if dotted domain ∧ containsNonAsciiCharacters domain then wildcard ++ domainToASCII newUrl domain else run

-- The run is what has been read since the last character of no domain.
def convertFrom (run : Text) : Text → Text
  | [] => convertRun newUrl run
  | c :: rest => if isDomainChar c then convertFrom (run ++ [c]) rest else convertRun newUrl run ++ c :: convertFrom [] rest

def convertNonAsciiToPunycode (line : Text) : Text := convertFrom newUrl [] line

end Punycode

section Transformations
variable (parser : RuleParser) (exempts : Text → Bool) (newUrl : Text → Option Text)

def convertedLine (rule : Text) : Text :=
  if isComment parser rule || rule.length = 0 then rule
  else if !containsNonAsciiCharacters rule then rule
  else convertNonAsciiToPunycode newUrl rule

def ConvertToAscii.executeSync (rules : List Text) : List Text := rules.map (convertedLine parser newUrl)

def TrimLines.executeSync (rules : List Text) : List Text := rules.map StringUtils.trim

def RemoveComments.executeSync (rules : List Text) : List Text := rules.filter fun rule => !isComment parser rule

def invertedLine (rule : Text) : Text :=
  if rule ≠ [] ∧ !isComment parser rule ∧ !isEtcHostsRule parser rule ∧ !Conflicts.isAllowRule parser exempts rule then
    "@@".toList ++ rule
  else rule

def InvertAllow.executeSync (rules : List Text) : List Text := rules.map (invertedLine parser exempts)

end Transformations

-- Those of registerDefaultTransformations that write no field of theirs.
section Registry
variable (validator : Validator) (parser : RuleParser) (exempts : Text → Bool) (newUrl : Text → Option Text)

def stateless : TransformationRegistry
  | .ConvertToAscii => some fun rules => .ok (ConvertToAscii.executeSync parser newUrl rules)
  | .TrimLines => some fun rules => .ok (TrimLines.executeSync rules)
  | .RemoveComments => some fun rules => .ok (RemoveComments.executeSync parser rules)
  | .Compress => some (Compress.executeSync parser)
  | .RemoveModifiers => some fun rules => .ok (RemoveModifiers.executeSync parser rules)
  | .InvertAllow => some fun rules => .ok (InvertAllow.executeSync parser exempts rules)
  | _ => none

def registerDefaultTransformations : Registered := { validator, parser, exempts, stateless := stateless parser exempts newUrl }

def defaultRegistry : TransformationRegistry := registry (registerDefaultTransformations validator parser exempts newUrl)

end Registry

section Converted
variable (newUrl : Text → Option Text)

theorem convertFrom_separated (separator : isDomainChar c = false) (run front back : Text) :
    convertFrom newUrl run (front ++ c :: back) = convertFrom newUrl run front ++ c :: convertFrom newUrl [] back := by
  induction front generalizing run with
  | nil => simp [convertFrom,separator]
  | cons d front ih =>
    rw [List.cons_append,convertFrom,convertFrom]
    split
    · exact ih (run ++ [d])
    · rw [ih [],List.append_assoc,List.cons_append]

theorem convertRun_nil : convertRun newUrl [] = [] := by simp [convertRun,dotted]

-- What separates the runs stays as it is.
theorem convert_front {seps : Text} (separate : ∀ c ∈ seps, isDomainChar c = false) (text : Text) :
    convertNonAsciiToPunycode newUrl (seps ++ text) = seps ++ convertNonAsciiToPunycode newUrl text := by
  induction seps with
  | nil => rfl
  | cons c seps ih =>
    obtain ⟨first,others⟩ := List.forall_mem_cons.mp separate
    have rest := ih others
    unfold convertNonAsciiToPunycode at rest ⊢
    rw [List.cons_append,convertFrom,if_neg (by simp [first]),convertRun_nil,rest]
    rfl

theorem convert_back {seps : Text} (separate : ∀ c ∈ seps, isDomainChar c = false) (text : Text) :
    convertNonAsciiToPunycode newUrl (text ++ seps) = convertNonAsciiToPunycode newUrl text ++ seps := by
  cases seps with
  | nil => rw [List.append_nil,List.append_nil]
  | cons c seps =>
    obtain ⟨first,others⟩ := List.forall_mem_cons.mp separate
    have rest := convert_front newUrl others []
    have none : convertNonAsciiToPunycode newUrl [] = [] := convertRun_nil newUrl
    rw [List.append_nil,none,List.append_nil] at rest
    rw [convertNonAsciiToPunycode,convertFrom_separated newUrl first]
    exact congrArg (convertFrom newUrl [] text ++ c :: ·) rest

def Ascii (text : Text) : Prop := ∀ c ∈ text, c.toNat < 128

theorem ascii_iff : Ascii text ↔ containsNonAsciiCharacters text = false := by simp [Ascii,containsNonAsciiCharacters]

theorem ascii_append : Ascii (front ++ back) ↔ Ascii front ∧ Ascii back := by
  simp only [Ascii,List.mem_append]
  constructor
  · intro all
    exact ⟨fun c member => all c (.inl member),fun c member => all c (.inr member)⟩
  · intro both c member
    exact member.elim (both.1 c) (both.2 c)

theorem ascii_run (ascii : Ascii run) : convertRun newUrl run = run := by
  have part (n : Nat) : containsNonAsciiCharacters (run.drop n) = false :=
    ascii_iff.mp fun c member => ascii c (List.mem_of_mem_drop member)
  simp [convertRun,part]

theorem ascii_converted (first : Ascii run) (rest : Ascii text) : convertFrom newUrl run text = run ++ text := by
  induction text generalizing run with
  | nil =>
    rw [List.append_nil]
    exact ascii_run newUrl first
  | cons c text ih =>
    have parts := ascii_append.mp (show Ascii ([c] ++ text) from rest)
    have none : Ascii [] := fun d member => by cases member
    rw [convertFrom]
    split
    · rw [ih (ascii_append.mpr ⟨first,parts.1⟩) parts.2,List.append_assoc,List.singleton_append]
    · rw [ih none parts.2,ascii_run newUrl first,List.nil_append]

theorem convertFrom_run {text : Text} (inside : ∀ c ∈ text, isDomainChar c = true) (run : Text) :
    convertFrom newUrl run text = convertRun newUrl (run ++ text) := by
  induction text generalizing run with
  | nil => rw [List.append_nil,convertFrom]
  | cons c text ih =>
    obtain ⟨first,others⟩ := List.forall_mem_cons.mp inside
    rw [convertFrom,if_pos first,ih others,List.append_assoc,List.singleton_append]

theorem wildcardOf_parts (run : Text) : wildcardOf run ++ run.drop (wildcardOf run).length = run ∧ Ascii (wildcardOf run) := by
  unfold wildcardOf
  split
  · rename_i starts
    obtain ⟨rest,rfl⟩ := startsWith_iff.mp starts.1
    exact ⟨rfl,by simp [Ascii]⟩
  · exact ⟨rfl,fun c member => by cases member⟩

section Hostnames
variable (hostnames : ∀ url hostname, newUrl url = some hostname → Ascii hostname)
include hostnames

-- A run is left as it is, or ASCII comes of it.
theorem convertRun_cases (run : Text) : convertRun newUrl run = run ∨ Ascii (convertRun newUrl run) := by
  obtain ⟨whole,star⟩ := wildcardOf_parts run
  unfold convertRun domainToASCII
  dsimp only
  split
  · cases read : newUrl ("http://".toList ++ run.drop (wildcardOf run).length) with
    | none => exact .inl whole
    | some hostname => exact .inr (ascii_append.mpr ⟨star,hostnames _ hostname read⟩)
  · exact .inl rfl

theorem convertRun_again (inside : ∀ c ∈ run, isDomainChar c = true) :
    convertFrom newUrl [] (convertRun newUrl run) = convertRun newUrl run := by
  cases convertRun_cases newUrl hostnames run with
  | inl same =>
    rw [same,convertFrom_run newUrl inside,List.nil_append]
    exact same
  | inr ascii => exact ascii_converted newUrl (fun c member => by cases member) ascii

theorem convert_again (line : Text) :
    convertNonAsciiToPunycode newUrl (convertNonAsciiToPunycode newUrl line) = convertNonAsciiToPunycode newUrl line := by
  have scan (run : Text) (inside : ∀ c ∈ run, isDomainChar c = true) :
      convertFrom newUrl [] (convertFrom newUrl run line) = convertFrom newUrl run line := by
    induction line generalizing run with
    | nil =>
      rw [convertFrom]
      exact convertRun_again newUrl hostnames inside
    | cons c rest ih =>
      rw [convertFrom]
      split
      · rename_i letter
        refine ih (run ++ [c]) ?_
        intro d member
        cases List.mem_append.mp member with
        | inl earlier => exact inside d earlier
        | inr last => exact List.mem_singleton.mp last ▸ letter
      · rename_i separator
        rw [convertFrom_separated newUrl (by simpa using separator),ih [] (fun d member => by cases member),
          convertRun_again newUrl hostnames inside]
  exact scan [] fun c member => by cases member

end Hostnames

end Converted

end AdblockCompiler.LineTransformations
