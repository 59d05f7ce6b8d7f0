import AdblockCompiler.TldUtils

namespace AdblockCompiler.Validation
open JsText Rules

section Positions

theorem startsWith_drop (text : Text) (c : Char) (i : Nat) : startsWith (text.drop i) [c] = true ↔ text[i]? = some c := by
  rw [startsWith_iff,← List.head?_drop]
  constructor
  · rintro ⟨rest,same⟩
    rw [same]
    rfl
  · intro first
    obtain ⟨rest,same⟩ := List.head?_eq_some_iff.mp first
    exact ⟨rest,same⟩

theorem indexOf_absent (absent : c ∉ text) (position : Nat) : indexOf text [c] position = none := by
  apply List.find?_eq_none.mpr
  intro i _ found
  exact absent (List.mem_of_getElem? ((startsWith_drop text c i).mp found))

theorem indexOf_first (absent : c ∉ front) (tail : Text) (before : position ≤ front.length) :
    indexOf (front ++ c :: tail) [c] position = some front.length := by
  unfold indexOf
  rw [List.find?_range'_eq_some,List.mem_range'_1,startsWith_drop,List.length_append,List.length_cons]
  refine ⟨?_,⟨before,by omega⟩,?_⟩
  · rw [List.getElem?_append_right (Nat.le_refl _),Nat.sub_self]
    rfl
  · intro j _ inside
    rw [Bool.not_eq_true',Bool.eq_false_iff,Ne,startsWith_drop,List.getElem?_append_left inside]
    exact fun found => absent (List.mem_of_getElem? found)

theorem indexOf_isSome (text : Text) (c : Char) : (indexOf text [c] 0).isSome = true ↔ c ∈ text := by
  constructor
  · intro some
    by_contra absent
    rw [indexOf_absent absent] at some
    cases some
  · intro member
    obtain ⟨front,tail,rfl,absent⟩ := List.eq_append_cons_of_mem member
    rw [indexOf_first absent tail (Nat.zero_le _)]
    rfl

-- The first star stands behind the separator.
theorem star_behind (front tail : Text) :
    (indexOf (front ++ '^' :: tail) ['*'] 0).any (front.length < ·) = ('*' ∉ front && '*' ∈ tail) := by
  by_cases early : '*' ∈ front
  · obtain ⟨first,rest,rfl,absent⟩ := List.eq_append_cons_of_mem early
    rw [List.append_assoc,List.cons_append,indexOf_first absent _ (Nat.zero_le _)]
    simp [early]
  · by_cases late : '*' ∈ tail
    · obtain ⟨first,rest,rfl,absent⟩ := List.eq_append_cons_of_mem late
      have whole : front ++ '^' :: (first ++ '*' :: rest) = (front ++ '^' :: first) ++ '*' :: rest := by simp
      rw [whole,indexOf_first (by simp [early,absent]) _ (Nat.zero_le _)]
      simp [early]
    · rw [indexOf_absent (by simp [early,late])]
      simp [late]

end Positions

theorem indexOf_front (starts : startsWith text part = true) : indexOf text part 0 = some 0 := by
  unfold indexOf
  rw [List.find?_range'_eq_some,List.mem_range'_1]
  exact ⟨starts,⟨Nat.le_refl 0,by omega⟩,fun j _ none => absurd none (Nat.not_lt_zero j)⟩

theorem replaceFirst_front (starts : startsWith text part = true) : replaceFirst text part = text.drop part.length := by
  unfold replaceFirst
  rw [indexOf_front starts]
  simp

-- What stands between the bars and the first separator, and what behind it.
theorem between_bars (absent : '^' ∉ domain) (tail : Text) :
    (substringBetween (blocking domain ++ tail) ['|','|'] ['^']).getD [] = domain := by
  have whole : blocking domain ++ tail = anchored domain ++ '^' :: tail := by
    rw [blocking,List.append_assoc,List.singleton_append]
  have bars : indexOf (blocking domain ++ tail) ['|','|'] 0 = some 0 := indexOf_front (startsWith_iff.mpr ⟨_,rfl⟩)
  have caret : indexOf (blocking domain ++ tail) ['^'] 2 = some (domain.length+2) := by
    rw [whole]
    exact indexOf_first (by simpa [anchored] using absent) tail (by simp [anchored])
  unfold substringBetween
  rw [if_neg (by rw [whole]; exact List.cons_ne_nil _ _),bars]
  dsimp only [List.length_cons,List.length_nil]
  rw [caret]
  dsimp only
  split
  · rw [Option.getD_some,whole,List.take_left' (by simp [anchored])]
    rfl
  · next none =>
    have empty : domain = [] := List.length_eq_zero_iff.mp (by omega)
    rw [empty]
    rfl

-- /^\/.*\/$/, and the characters that a domain pattern may have.
def isRegex (pattern : Text) : Bool := startsWith pattern ['/'] && endsWith pattern ['/']

def isPlain (pattern : Text) : Bool :=
  let toTest := if startsWith pattern "://".toList then pattern.drop 3 else pattern
  toTest ≠ [] && toTest.all isPatternChar

-- The hostnames that validateHostname lets through.
def accepted (v : Validator) (allowIp : Bool) (hasLimitModifier : Bool) (hostname : Text) : Bool :=
  let result := v.hostOf hostname
  result.hostname.getD [] ≠ [] && (allowIp || !result.isIp) && (result.hostname ≠ result.publicSuffix || hasLimitModifier)

section Patterns
variable (v : Validator) (allowIp : Bool) (currentSourceName : Option Text) (rule : NetworkRule) (hasLimitModifier : Bool)
  (ruleText : Text) (lineNumber : Nat)

theorem hostname_accepted (hostname : Text) :
    (validateHostname v allowIp currentSourceName hostname ruleText hasLimitModifier lineNumber).valid =
      accepted v allowIp hasLimitModifier hostname := by
  unfold validateHostname accepted
  dsimp only
  by_cases unnamed : (v.hostOf hostname).hostname.getD [] = []
  · simp [unnamed,refused]
  · cases ip : !allowIp && (v.hostOf hostname).isIp with
    | true =>
      obtain ⟨barred,isIp⟩ := Bool.and_eq_true_iff.mp ip
      simp_all [refused]
    | false =>
      have passes : (allowIp || !(v.hostOf hostname).isIp) = true := by
        rw [Bool.and_eq_false_iff,Bool.not_eq_false'] at ip
        rcases ip with allowed | name
        · rw [allowed,Bool.true_or]
        · rw [name,Bool.not_false,Bool.or_true]
      rw [if_neg unnamed,if_neg (by decide),passes]
      by_cases suffix : (v.hostOf hostname).hostname = (v.hostOf hostname).publicSuffix
      · cases hasLimitModifier <;> simp_all [refused]
      · simp [suffix,unnamed]

-- A missing host is not looked at.
theorem host_accepted (domain : Text) :
    (if domain ≠ [] then validateHostname v allowIp currentSourceName domain ruleText hasLimitModifier lineNumber
      else ⟨true,[]⟩).valid = true ↔ domain = [] ∨ accepted v allowIp hasLimitModifier domain = true := by
  by_cases empty : domain = []
  · simp [empty]
  · rw [if_pos empty,hostname_accepted]
    simp [empty]

theorem pattern_regex (regex : isRegex rule.pattern = true) :
    validatePattern v allowIp currentSourceName rule hasLimitModifier ruleText lineNumber = ⟨true,[]⟩ := if_pos regex

theorem plain_exact : isPlain rule.pattern = false ↔
    ((if startsWith rule.pattern "://".toList then rule.pattern.drop 3 else rule.pattern) = [] ∨
      (if startsWith rule.pattern "://".toList then rule.pattern.drop 3 else rule.pattern).all isPatternChar = false) := by
  unfold isPlain
  simp only [Bool.and_eq_false_iff,decide_eq_false_iff_not,not_not]

theorem pattern_characters (other : isRegex rule.pattern = false) (strange : isPlain rule.pattern = false) :
    validatePattern v allowIp currentSourceName rule hasLimitModifier ruleText lineNumber =
      refused currentSourceName .InvalidCharacters ruleText "Invalid characters in pattern".toList
        "Pattern contains characters not allowed in domain names".toList (some (.network rule)) lineNumber :=
  (if_neg (Bool.not_eq_true _ ▸ other)).trans (if_pos ((plain_exact rule).mp strange))

-- The one character behind a separator that is looked at.
theorem bar_behind (front tail : Text) :
    (!(decide (front.length+1 < (front ++ '^' :: tail).length) && decide ((front ++ '^' :: tail)[front.length+1]? ≠ some '|'))) =
      (decide (tail = []) || decide (tail.head? = some '|')) := by
  have size : (front ++ '^' :: tail).length = front.length+1+tail.length := by
    rw [List.length_append,List.length_cons]
    omega
  have next : (front ++ '^' :: tail)[front.length+1]? = tail.head? := by
    rw [List.getElem?_append_right (by omega),Nat.add_sub_cancel_left,List.getElem?_cons_succ,List.head?_eq_getElem?]
  rw [next,size]
  cases tail <;> simp

section Plain
variable (other : isRegex rule.pattern = false) (plain : isPlain rule.pattern = true)
include other plain

theorem plain_passes : ¬(startsWith rule.pattern ['/'] && endsWith rule.pattern ['/']) = true ∧
    ¬((if startsWith rule.pattern "://".toList then rule.pattern.drop 3 else rule.pattern) = [] ∨
      (if startsWith rule.pattern "://".toList then rule.pattern.drop 3 else rule.pattern).all isPatternChar = false) := by
  refine ⟨?_,mt (plain_exact rule).mpr (by rw [plain]; decide)⟩
  rw [isRegex] at other
  rw [other]
  decide

theorem pattern_open (absent : '^' ∉ rule.pattern) :
    validatePattern v allowIp currentSourceName rule hasLimitModifier ruleText lineNumber =
      if startsWith rule.pattern ['|','|'] ∧ rule.pattern.drop 2 ≠ [] ∧ (rule.pattern.drop 2).length < 3 then
        refused currentSourceName .PatternTooShort ruleText "Pattern too short".toList
          "Minimum domain length is 3 characters".toList (some (.network rule)) lineNumber
      else ⟨true,[]⟩ := by
  obtain ⟨name,fits⟩ := plain_passes rule other plain
  unfold validatePattern
  dsimp only
  rw [if_neg name,if_neg fits,indexOf_absent absent 0]
  dsimp only [Option.any_none,Option.getD_some]
  rw [if_neg Bool.false_ne_true]
  cases startsWith rule.pattern ['|','|'] with
  | false => rw [if_pos rfl,if_neg fun bars => Bool.false_ne_true bars.1]
  | true => simp only [Bool.true_eq_false,if_false,true_and]

theorem pattern_free (shape : rule.pattern = front ++ '^' :: tail) (absent : '^' ∉ front)
    (free : startsWith rule.pattern ['|','|'] = false) :
    validatePattern v allowIp currentSourceName rule hasLimitModifier ruleText lineNumber = ⟨!('*' ∉ front && '*' ∈ tail),[]⟩ := by
  obtain ⟨name,fits⟩ := plain_passes rule other plain
  unfold validatePattern
  dsimp only
  rw [if_neg name,if_neg fits,if_pos free,shape,indexOf_first absent tail (Nat.zero_le _)]
  simp only [Option.any_some,star_behind]
  cases decide ('*' ∉ front) && decide ('*' ∈ tail) <;> rfl

theorem pattern_closed (shape : rule.pattern = blocking domain ++ tail) (absent : '^' ∉ domain) :
    validatePattern v allowIp currentSourceName rule hasLimitModifier ruleText lineNumber =
      if ('*' ∉ domain && '*' ∈ tail) = true then ⟨false,[]⟩
      else if domain ≠ [] ∧ domain.length < 3 then
        refused currentSourceName .PatternTooShort ruleText "Pattern too short".toList
          "Minimum domain length is 3 characters".toList (some (.network rule)) lineNumber
      else if '*' ∈ domain then
        if startsWith domain ['*','.'] ∧ v.getPublicSuffix (domain.drop 2) = some (domain.drop 2) then
          validateHostname v allowIp currentSourceName (domain.drop 2) ruleText hasLimitModifier lineNumber
        else ⟨true,[]⟩
      else
        let verdict :=
          if domain ≠ [] then validateHostname v allowIp currentSourceName domain ruleText hasLimitModifier lineNumber else ⟨true,[]⟩
        if verdict.valid then ⟨tail = [] || tail.head? = some '|',verdict.errors⟩ else verdict := by
  obtain ⟨name,fits⟩ := plain_passes rule other plain
  have whole : rule.pattern = anchored domain ++ '^' :: tail := by rw [shape,blocking,List.append_assoc,List.singleton_append]
  have before : '^' ∉ anchored domain := by simpa [anchored] using absent
  have bars : startsWith rule.pattern ['|','|'] = true := startsWith_iff.mpr ⟨_,whole⟩
  have caret : indexOf rule.pattern ['^'] 0 = some (anchored domain).length := by
    rw [whole]
    exact indexOf_first before tail (Nat.zero_le _)
  have behind : (indexOf rule.pattern ['*'] 0).any ((anchored domain).length < ·) = ('*' ∉ domain && '*' ∈ tail) := by
    rw [whole,star_behind]
    simp [anchored]
  have domain_ : (substringBetween rule.pattern ['|','|'] ['^']).getD [] = domain := by
    rw [shape]
    exact between_bars absent tail
  unfold validatePattern
  dsimp only
  rw [if_neg name,if_neg fits,caret]
  simp only [Option.any_some,behind,bars,domain_,Bool.true_eq_false,if_false]
  cases late : decide ('*' ∉ domain) && decide ('*' ∈ tail) with
  | true => rw [if_pos rfl,if_pos rfl]
  | false =>
    rw [if_neg Bool.false_ne_true,if_neg Bool.false_ne_true]
    congr 1
    by_cases star : '*' ∈ domain
    · have filled : domain ≠ [] := List.ne_nil_of_mem star
      rw [if_pos ⟨filled,(indexOf_isSome _ _).mpr (by rw [whole]; simp [anchored,star])⟩,if_pos star]
      by_cases starts : startsWith domain ['*','.'] = true
      · rw [replaceFirst_front starts]
        rfl
      · rw [if_neg fun both => starts both.1,if_neg fun both => starts both.1]
    · have none : ¬(indexOf rule.pattern ['*'] 0).isSome = true := by
        rw [indexOf_isSome,whole]
        simpa [anchored,star] using late
      rw [if_neg fun both => none both.2,if_neg star]
      rw [whole,bar_behind]

end Plain

-- What a pattern with bars and a separator has to be.
structure Passes (domain tail : Text) : Prop where
  star : '*' ∈ tail → '*' ∈ domain
  size : domain = [] ∨ 3 ≤ domain.length
  wild : '*' ∈ domain → startsWith domain ['*','.'] = true → v.getPublicSuffix (domain.drop 2) = some (domain.drop 2) →
    accepted v allowIp hasLimitModifier (domain.drop 2) = true
  host : '*' ∉ domain → domain = [] ∨ accepted v allowIp hasLimitModifier domain = true
  tail : '*' ∉ domain → tail = [] ∨ tail.head? = some '|'

theorem blocking_valid (shape : rule.pattern = blocking domain ++ tail) (absent : '^' ∉ domain) :
    (validatePattern v allowIp currentSourceName rule hasLimitModifier ruleText lineNumber).valid = true ↔
      isPlain rule.pattern = true ∧ Passes v allowIp hasLimitModifier domain tail := by
  have other : isRegex rule.pattern = false := by
    rw [shape]
    rfl
  cases plain : isPlain rule.pattern with
  | false =>
    rw [pattern_characters v allowIp currentSourceName rule hasLimitModifier ruleText lineNumber other plain]
    simp [refused]
  | true =>
    rw [pattern_closed v allowIp currentSourceName rule hasLimitModifier ruleText lineNumber other plain shape absent]
    cases late : decide ('*' ∉ domain) && decide ('*' ∈ tail) with
    | true =>
      obtain ⟨none,behind⟩ := Bool.and_eq_true_iff.mp late
      rw [if_pos rfl]
      exact ⟨fun no => (Bool.false_ne_true no).elim,fun both => absurd (both.2.star (of_decide_eq_true behind)) (of_decide_eq_true none)⟩
    | false =>
      have inside : '*' ∈ tail → '*' ∈ domain := by
        intro behind
        by_contra none
        simp [none,behind] at late
      rw [if_neg Bool.false_ne_true]
      by_cases short : domain ≠ [] ∧ domain.length < 3
      · rw [if_pos short]
        refine ⟨fun no => (Bool.false_ne_true no).elim,fun both => ?_⟩
        rcases both.2.size with empty | long
        · exact absurd empty short.1
        · omega
      · have size : domain = [] ∨ 3 ≤ domain.length := by
          rwa [not_and_or,not_not,Nat.not_lt] at short
        rw [if_neg short]
        by_cases star : '*' ∈ domain
        · have shut (passes : startsWith domain ['*','.'] = true → v.getPublicSuffix (domain.drop 2) = some (domain.drop 2) →
              accepted v allowIp hasLimitModifier (domain.drop 2) = true) : Passes v allowIp hasLimitModifier domain tail :=
            ⟨inside,size,fun _ => passes,fun none => absurd star none,fun none => absurd star none⟩
          rw [if_pos star]
          split
          · next suffix =>
            rw [hostname_accepted]
            exact ⟨fun passes => ⟨rfl,shut fun _ _ => passes⟩,fun both => both.2.wild star suffix.1 suffix.2⟩
          · next free => exact ⟨fun _ => ⟨rfl,shut fun starts same => absurd ⟨starts,same⟩ free⟩,fun _ => rfl⟩
        · rw [if_neg star]
          have host := host_accepted v allowIp currentSourceName hasLimitModifier ruleText lineNumber domain
          generalize (if domain ≠ [] then validateHostname v allowIp currentSourceName domain ruleText hasLimitModifier lineNumber
              else ⟨true,[]⟩) = verdict at host
          cases good : verdict.valid with
          | true =>
            rw [good] at host
            simp only [good,if_true,Bool.or_eq_true,decide_eq_true_eq]
            exact ⟨fun ends => ⟨trivial,inside,size,fun inner => absurd inner star,fun _ => host.mp rfl,fun _ => ends⟩,
              fun both => both.2.tail star⟩
          | false =>
            rw [good] at host
            simp only [good,Bool.false_eq_true,if_false,false_iff,not_and]
            exact fun _ passes => Bool.false_ne_true (host.mpr (passes.host star))

theorem anchored_valid (shape : rule.pattern = anchored domain) (absent : '^' ∉ domain) :
    (validatePattern v allowIp currentSourceName rule hasLimitModifier ruleText lineNumber).valid = true ↔
      isPlain rule.pattern = true ∧ (domain = [] ∨ 3 ≤ domain.length) := by
  have other : isRegex rule.pattern = false := by
    rw [shape]
    rfl
  cases plain : isPlain rule.pattern with
  | false =>
    rw [pattern_characters v allowIp currentSourceName rule hasLimitModifier ruleText lineNumber other plain]
    simp [refused]
  | true =>
    have free : '^' ∉ rule.pattern := by
      rw [shape]
      simpa [anchored] using absent
    rw [pattern_open v allowIp currentSourceName rule hasLimitModifier ruleText lineNumber other plain free,shape,anchored_body]
    by_cases short : domain ≠ [] ∧ domain.length < 3
    · rw [if_pos ⟨anchored_bars domain,short⟩]
      simp only [refused,Bool.false_eq_true,true_and,false_iff,not_or,Nat.not_le]
      exact short
    · rw [if_neg fun both => short both.2]
      simpa only [true_and,true_iff,not_and_or,not_not,Nat.not_lt] using short

end Patterns

def isSupported (mod : Modifier) : Bool := modName mod ∈ SUPPORTED_MODIFIERS || mod.name ∈ SUPPORTED_MODIFIERS
def supported (rule : NetworkRule) : Bool := rule.modifiers.all isSupported
def limited (rule : NetworkRule) : Bool := rule.modifiers.any (·.name ∈ ANY_PATTERN_MODIFIER)

section Rules
variable (v : Validator) (allowIp : Bool) (currentSourceName : Option Text)

-- The rules that have a modifier out of the list do not come to their patterns.
theorem network_refused (rule : NetworkRule) (ruleText : Text) (lineNumber : Nat) (unknown : supported rule = false) :
    ∃ mod, validateNetworkRule v allowIp currentSourceName rule ruleText lineNumber =
      refused currentSourceName .UnsupportedModifier ruleText ("Unsupported modifier: ".toList ++ mod)
        ("Supported modifiers: ".toList ++ [',',' '].intercalate SUPPORTED_MODIFIERS) (some (.network rule)) lineNumber := by
  obtain ⟨mod,member,foreign⟩ := List.all_eq_false.mp unknown
  have found : (rule.modifiers.find? fun mod => modName mod ∉ SUPPORTED_MODIFIERS ∧ mod.name ∉ SUPPORTED_MODIFIERS).isSome = true :=
    List.find?_isSome.mpr ⟨mod,member,by simpa [isSupported] using foreign⟩
  obtain ⟨first,found⟩ := Option.isSome_iff_exists.mp found
  exact ⟨first.name,by simp only [validateNetworkRule,found]⟩

theorem network_supported (rule : NetworkRule) (ruleText : Text) (lineNumber : Nat) (known : supported rule = true) :
    ∃ warnings, (∀ warning ∈ warnings, warning.severity = .Warning) ∧
      validateNetworkRule v allowIp currentSourceName rule ruleText lineNumber =
        let verdict := validatePattern v allowIp currentSourceName rule (limited rule) ruleText lineNumber
        ⟨verdict.valid,warnings ++ verdict.errors⟩ := by
  have none : rule.modifiers.find? (fun mod => modName mod ∉ SUPPORTED_MODIFIERS ∧ mod.name ∉ SUPPORTED_MODIFIERS) = none := by
    apply List.find?_eq_none.mpr
    intro mod member
    have fits := List.all_eq_true.mp known mod member
    simp only [isSupported,Bool.or_eq_true,decide_eq_true_eq] at fits
    simp only [decide_eq_true_eq,not_and_or,not_not]
    exact fits
  simp only [validateNetworkRule,none,limited]
  refine ⟨_,?_,rfl⟩
  intro warning member
  split at member
  · cases member
  · rw [List.mem_singleton.mp member]
    rfl

theorem network_valid (rule : NetworkRule) (ruleText : Text) (lineNumber : Nat) :
    (validateNetworkRule v allowIp currentSourceName rule ruleText lineNumber).valid =
      (supported rule && (validatePattern v allowIp currentSourceName rule (limited rule) ruleText lineNumber).valid) := by
  cases known : supported rule with
  | true =>
    obtain ⟨warnings,-,same⟩ := network_supported v allowIp currentSourceName rule ruleText lineNumber known
    rw [same,Bool.true_and]
  | false =>
    obtain ⟨mod,same⟩ := network_refused v allowIp currentSourceName rule ruleText lineNumber known
    rw [same,Bool.false_and]
    rfl

-- A line that is no remark is kept for its own sake.
theorem rule_kept (this : ValidateTransformation) (rules : List Text) (ruleText : Text)
    (own : isCommentOrEmpty (v.parse (trim ruleText)) ruleText = false) :
    ruleText ∈ (executeSync v allowIp this rules).2 ↔
      ruleText ∈ rules ∧ (isValidParsedRule v allowIp none (v.parse (trim ruleText)) ruleText 0).valid = true := by
  have valid (line : Text × Nat) (same : line.1 = ruleText) (after : List (Text × Nat)) :
      stays v allowIp this.currentSourceName line after =
        (isValidParsedRule v allowIp none (v.parse (trim ruleText)) ruleText 0).valid := by
    unfold stays isRemark checked
    rw [same,own,if_neg Bool.false_ne_true]
    exact rule_source v allowIp _ _ _ _ _ ruleText
  have output : (executeSync v allowIp this rules).2 = _ := sweep_filtered v allowIp this.currentSourceName rules 0
  rw [output,List.mem_map]
  constructor
  · rintro ⟨line,member,same⟩
    obtain ⟨inside,kept⟩ := List.mem_filter.mp member
    rw [valid line same] at kept
    have here := List.mem_of_getElem? (List.mem_zipIdx_iff_getElem?.mp inside)
    exact ⟨same ▸ here,kept⟩
  · rintro ⟨member,kept⟩
    obtain ⟨i,inside⟩ := List.mem_iff_getElem?.mp member
    refine ⟨(ruleText,i),List.mem_filter.mpr ⟨List.mem_zipIdx_iff_getElem?.mpr inside,?_⟩,rfl⟩
    rw [valid (ruleText,i) rfl]
    exact kept

theorem network_own (parsed : v.parse (trim ruleText) = some (.network rule)) (filled : trim ruleText ≠ []) :
    isCommentOrEmpty (v.parse (trim ruleText)) ruleText = false := by
  unfold isCommentOrEmpty
  rw [if_neg filled,parsed]
  rfl

theorem network_kept (this : ValidateTransformation) (rules : List Text) (parsed : v.parse (trim ruleText) = some (.network rule))
    (filled : trim ruleText ≠ []) :
    ruleText ∈ (executeSync v allowIp this rules).2 ↔
      ruleText ∈ rules ∧ supported rule = true ∧ (validatePattern v allowIp none rule (limited rule) ruleText 0).valid = true := by
  rw [rule_kept v allowIp this rules ruleText (network_own v parsed filled),← Bool.and_eq_true,← network_valid]
  unfold isValidParsedRule
  rw [if_neg filled,parsed]

end Rules

-- A host of three characters or more, and nothing behind its separator but a
-- bar at the end.
def WellFormed (pattern : Text) : Prop :=
  ∀ domain tail, pattern = blocking domain ++ tail → '^' ∉ domain → 3 ≤ domain.length ∧ (tail = [] ∨ tail = ['|'])

-- Three branches come to their end without a look at the rest of the pattern:
-- no host to check, a wildcard in the host, and a bar behind the separator.
inductive Slip (v : Validator) (allowIp : Bool) (hasLimitModifier : Bool) : Text → Text → Prop where
  | nothing (free : '*' ∉ tail) (ends : tail = [] ∨ tail.head? = some '|') : Slip v allowIp hasLimitModifier [] tail
  | wild (size : 3 ≤ domain.length) (star : '*' ∈ domain)
      (host : startsWith domain ['*','.'] = true → v.getPublicSuffix (domain.drop 2) = some (domain.drop 2) →
        accepted v allowIp hasLimitModifier (domain.drop 2) = true)
      (behind : ¬(tail = [] ∨ tail = ['|'])) : Slip v allowIp hasLimitModifier domain tail
  | more (size : 3 ≤ domain.length) (free : '*' ∉ domain) (host : accepted v allowIp hasLimitModifier domain = true)
      (rest : '*' ∉ behind) (some_ : behind ≠ []) : Slip v allowIp hasLimitModifier domain ('|' :: behind)

theorem slip_exact : Passes v allowIp hasLimitModifier domain tail ∧ ¬(3 ≤ domain.length ∧ (tail = [] ∨ tail = ['|'])) ↔
    Slip v allowIp hasLimitModifier domain tail := by
  constructor
  · rintro ⟨passes,malformed⟩
    rcases passes.size with rfl | size
    · exact .nothing (fun star => nomatch passes.star star) (passes.tail List.not_mem_nil)
    · have behind : ¬(tail = [] ∨ tail = ['|']) := fun ends => malformed ⟨size,ends⟩
      by_cases star : '*' ∈ domain
      · exact .wild size star (passes.wild star) behind
      · have filled : domain ≠ [] := by
          rintro rfl
          cases size
        have host := (passes.host star).resolve_left filled
        have bar := (passes.tail star).resolve_left fun none => behind (.inl none)
        obtain ⟨rest,rfl⟩ := List.head?_eq_some_iff.mp bar
        refine .more size star host (fun inner => star (passes.star (List.mem_cons_of_mem _ inner))) ?_
        rintro rfl
        exact behind (.inr rfl)
  · intro slip
    cases slip with
    | nothing free ends =>
      have none : '*' ∉ ([] : Text) := List.not_mem_nil
      exact ⟨⟨fun star => absurd star free,.inl rfl,fun star => absurd star none,fun _ => .inl rfl,fun _ => ends⟩,fun both => nomatch both.1⟩
    | wild size star host behind =>
      exact ⟨⟨fun _ => star,.inr size,fun _ => host,fun free => absurd star free,fun free => absurd star free⟩,fun both => behind both.2⟩
    | more size free host rest some_ =>
      refine ⟨⟨fun star => ?_,.inr size,fun star => absurd star free,fun _ => .inr host,fun _ => .inr rfl⟩,fun both => ?_⟩
      · exact absurd star (List.not_mem_cons_of_ne_of_not_mem (by decide) rest)
      · rcases both.2 with none | single
        · cases none
        · exact some_ (List.cons.inj single).2

section Kept
variable (v : Validator) (allowIp : Bool)

def Slips (rule : NetworkRule) : Prop :=
  supported rule = true ∧ isPlain rule.pattern = true ∧
    ∃ domain tail, rule.pattern = blocking domain ++ tail ∧ '^' ∉ domain ∧ Slip v allowIp (limited rule) domain tail

-- The kept rules with bars and a separator are well-formed exactly when no rule
-- of the list goes through one of the three branches.
theorem kept_domains_exact (this : ValidateTransformation) (rules : List Text) :
    (∀ ruleText ∈ (executeSync v allowIp this rules).2, trim ruleText ≠ [] →
        ∀ rule, v.parse (trim ruleText) = some (.network rule) → WellFormed rule.pattern) ↔
      ∀ ruleText ∈ rules, trim ruleText ≠ [] → ∀ rule, v.parse (trim ruleText) = some (.network rule) → ¬Slips v allowIp rule := by
  constructor
  · intro formed ruleText member filled rule parsed slips
    obtain ⟨known,plain,domain,tail,shape,absent,slip⟩ := slips
    obtain ⟨passes,malformed⟩ := slip_exact.mpr slip
    have valid := (blocking_valid v allowIp none rule (limited rule) ruleText 0 shape absent).mpr ⟨plain,passes⟩
    have kept := (network_kept v allowIp this rules parsed filled).mpr ⟨member,known,valid⟩
    exact malformed (formed ruleText kept filled rule parsed domain tail shape absent)
  · intro sound ruleText kept filled rule parsed domain tail shape absent
    obtain ⟨member,known,valid⟩ := (network_kept v allowIp this rules parsed filled).mp kept
    obtain ⟨plain,passes⟩ := (blocking_valid v allowIp none rule (limited rule) ruleText 0 shape absent).mp valid
    by_contra malformed
    exact sound ruleText member filled rule parsed ⟨known,plain,domain,tail,shape,absent,slip_exact.mp ⟨passes,malformed⟩⟩

-- Anchored rules, hosts lines of one name and comments, for concrete runs.
def basicValidator : Validator where
  parse text :=
    if text = [] then some .empty
    else if startsWith text ['!'] then some .comment
    else if startsWith text ['|','|'] then some (.network { pattern := text })
    else if startsWith text "0.0.0.0 ".toList then some (.host [text.drop 8])
    else some .cosmetic
  hostOf := TldUtils.parse lowerCase
  getPublicSuffix := TldUtils.getPublicSuffix lowerCase
  modifierErrors _ := []

-- A separator without any host.
theorem bare_separator_kept :
    ¬∀ ruleText ∈ (executeSync basicValidator false {} ["||^".toList]).2, trim ruleText ≠ [] →
      ∀ rule, basicValidator.parse (trim ruleText) = some (.network rule) → WellFormed rule.pattern := by
  intro formed
  have kept : "||^".toList ∈ (executeSync basicValidator false {} ["||^".toList]).2 := by decide +kernel
  have size := formed "||^".toList kept (by decide) { pattern := "||^".toList } (by decide) [] [] rfl List.not_mem_nil
  exact absurd size.1 (by decide)

end Kept

end AdblockCompiler.Validation
