import AdblockCompiler.PatternValidation

namespace AdblockCompiler.TldUtils
open JsText Rules Validation

-- What the texts that getPublicSuffix answers with have in common.
structure SuffixText (suffix : Text) : Prop where
  labels : (suffix.splitOn '.').all isValidLabel = true
  few : (suffix.splitOn '.').length ≤ 2
  short : suffix.length ≤ 252

section Suffixes

theorem listed_suffix (member : suffix ∈ COMMON_PUBLIC_SUFFIXES ++ MULTI_PART_SUFFIXES) : SuffixText suffix := by
  have all : (COMMON_PUBLIC_SUFFIXES ++ MULTI_PART_SUFFIXES).all (fun suffix =>
      (suffix.splitOn '.').all isValidLabel && (suffix.splitOn '.').length ≤ 2 && suffix.length ≤ 252) = true := by decide +kernel
  have own := List.all_eq_true.mp all suffix member
  rw [Bool.and_eq_true,Bool.and_eq_true,decide_eq_true_eq,decide_eq_true_eq] at own
  exact ⟨own.1.1,own.1.2,own.2⟩

theorem label_chars (label : isValidLabel text = true) : ∀ c ∈ text, isLabelChar c = true := by
  unfold isValidLabel domainLabel at label
  simp only [Bool.and_eq_true] at label
  exact List.all_eq_true.mp label.1.1.1.1

theorem label_suffix (label : isValidLabel text = true) : SuffixText text := by
  have single : text.splitOn '.' = [text] := by
    apply List.splitOn_eq_singleton
    intro dot
    exact absurd (label_chars label '.' dot) (by decide)
  have size : text.length ≤ 63 := by
    unfold isValidLabel domainLabel at label
    simp only [Bool.and_eq_true,decide_eq_true_eq] at label
    exact label.1.1.2
  refine ⟨?_,?_,by omega⟩
  · rw [single]
    simpa using label
  · rw [single,List.length_singleton]
    decide

variable (toLowerCase : Text → Text)

theorem suffix_text (found : getPublicSuffix toLowerCase domain = some suffix) : SuffixText suffix := by
  unfold getPublicSuffix at found
  split at found
  · cases found
  · dsimp only at found
    split at found
    · cases found
    · split at found
      · next two =>
        obtain rfl := Option.some.inj found
        exact listed_suffix (List.mem_append_right _ two.2)
      · split at found
        · next three =>
          obtain rfl := Option.some.inj found
          exact listed_suffix (List.mem_append_right _ three.2)
        · split at found
          · next common =>
            obtain rfl := Option.some.inj found
            exact listed_suffix (List.mem_append_left _ common)
          · split at found
            · next label =>
              obtain rfl := Option.some.inj found
              exact label_suffix label
            · cases found

theorem suffix_same (one : first ≠ []) (two : second ≠ []) (same : withoutDots (toLowerCase first) = withoutDots (toLowerCase second)) :
    getPublicSuffix toLowerCase first = getPublicSuffix toLowerCase second := by
  unfold getPublicSuffix
  rw [if_neg one,if_neg two,same]

end Suffixes

-- A text that ends in a dot has an empty last label.
theorem dotted_split (front : Text) : (front ++ ['.']).splitOn '.' = front.splitOn '.' ++ [[]] := by
  rw [List.splitOn_append_cons_self,List.splitOn_nil]

theorem dotted_ends (front : Text) : endsWith (front ++ ['.']) ['.'] = true :=
  List.isSuffixOf_iff_suffix.mpr (List.suffix_append front ['.'])

theorem Lowers.stays (lowers : Lowers toLowerCase) (ascii : ∀ c ∈ text, c.toNat < 128) (small : ∀ c ∈ text, c.isUpper = false) :
    toLowerCase text = text := by
  rw [lowers.ascii text ascii,lowerCase]
  conv => rhs; rw [← List.map_id text]
  apply List.map_congr_left
  intro c member
  exact Char.toLower_eq_of_not_isUpper (by rw [small c member]; decide)

theorem alphanum_ascii {c : Char} (letter : c.isAlphanum = true) : c.toNat < 128 := by
  simp only [Char.isAlphanum,Char.isAlpha,Char.isUpper,Char.isLower,Char.isDigit,Bool.or_eq_true,Bool.and_eq_true,decide_eq_true_eq] at letter
  rcases letter with (⟨-,top⟩ | ⟨-,top⟩) | ⟨-,top⟩
  · exact Nat.lt_of_le_of_lt top (by decide)
  · exact Nat.lt_of_le_of_lt top (by decide)
  · exact Nat.lt_of_le_of_lt top (by decide)

theorem labelChar_bounds {c : Char} (label : isLabelChar c = true) : c.toNat < 128 ∧ isSpace c = false ∧ c ≠ ':' := by
  rcases Bool.or_eq_true_iff.mp label with letter | dash
  · have word : isWordChar c = true := by rw [isWordChar,letter,Bool.true_or]
    refine ⟨alphanum_ascii letter,wordChar_not_space word,?_⟩
    rintro rfl
    cases letter
  · obtain rfl := eq_of_beq dash
    decide

section SuffixTexts
variable {suffix : Text} (text : SuffixText suffix)
include text

theorem SuffixText.filled : suffix ≠ [] := by
  rintro rfl
  exact absurd text.labels (by decide)

theorem SuffixText.chars : ∀ c ∈ suffix, isLabelChar c = true ∨ c = '.' := by
  intro c member
  have whole : ['.'].intercalate (suffix.splitOn '.') = suffix := List.intercalate_splitOn '.'
  rw [← whole] at member
  rcases mem_join member with dot | ⟨label,inside,own⟩
  · exact .inr dot
  · exact .inl (label_chars (List.all_eq_true.mp text.labels label inside) c own)

theorem SuffixText.undotted (front : Text) : suffix ≠ front ++ ['.'] := by
  intro dotted
  have labels := text.labels
  rw [dotted,dotted_split] at labels
  exact absurd (List.all_eq_true.mp labels [] (List.mem_append_right _ List.mem_cons_self)) (by decide)

theorem SuffixText.ascii : ∀ c ∈ suffix, c.toNat < 128 := by
  intro c member
  rcases text.chars c member with label | rfl
  · exact (labelChar_bounds label).1
  · decide

omit text in
theorem bare_ends (bare : ∀ front, suffix ≠ front ++ ['.']) : endsWith suffix ['.'] = false := by
  apply Bool.eq_false_iff.mpr
  intro ends
  obtain ⟨front,same⟩ := List.isSuffixOf_iff_suffix.mp ends
  exact bare front same.symm

theorem SuffixText.undotted_ends : endsWith suffix ['.'] = false := bare_ends text.undotted

-- The text of a suffix with some dots behind it.
def dotted (suffix : Text) (k : Nat) : Text := suffix ++ List.replicate k '.'

omit text in
theorem dotted_succ (k : Nat) : dotted suffix (k+1) = dotted suffix k ++ ['.'] := by
  rw [dotted,List.replicate_succ',← List.append_assoc]
  rfl

omit text in
theorem dotted_bare (bare : ∀ front, suffix ≠ front ++ ['.']) (k : Nat) : TldUtils.withoutDots (dotted suffix k) = suffix := by
  induction k with
  | zero =>
    rw [dotted,List.replicate_zero,List.append_nil]
    apply List.rdropWhile_eq_self_iff.mpr
    intro some_ dot
    have split := List.dropLast_append_getLast some_
    rw [of_decide_eq_true dot] at split
    exact bare _ split.symm
  | succ k ih =>
    rw [dotted_succ]
    exact (List.rdropWhile_concat_pos _ _ _ (by decide)).trans ih

omit text in
theorem dotted_shorter (bare : ∀ front, suffix ≠ front ++ ['.']) (k : Nat) :
    (if endsWith (dotted suffix k) ['.'] then (dotted suffix k).dropLast else dotted suffix k) = dotted suffix (k-1) := by
  cases k with
  | zero => rw [dotted,List.replicate_zero,List.append_nil,bare_ends bare,if_neg Bool.false_ne_true]
  | succ k => rw [dotted_succ,dotted_ends,if_pos rfl,List.dropLast_concat,Nat.add_sub_cancel]

theorem SuffixText.withoutDots (k : Nat) : withoutDots (dotted suffix k) = suffix := dotted_bare text.undotted k

omit text in
theorem dotted_plain (chars : ∀ c ∈ suffix, isLabelChar c = true ∨ c = '.') (k : Nat) : ∀ c ∈ dotted suffix k, isSpace c = false ∧ c ≠ ':' := by
  intro c member
  rcases List.mem_append.mp member with own | dot
  · rcases chars c own with label | rfl
    · exact (labelChar_bounds label).2
    · decide
  · rw [List.eq_of_mem_replicate dot]
    decide

theorem SuffixText.dotted_chars (k : Nat) : ∀ c ∈ dotted suffix k, isSpace c = false ∧ c ≠ ':' := dotted_plain text.chars k

omit text in
theorem dotted_trimmed (chars : ∀ c ∈ suffix, isLabelChar c = true ∨ c = '.') (k : Nat) : trim (dotted suffix k) = dotted suffix k := by
  apply trim_trimmed
  constructor
  · intro c rest same
    exact (dotted_plain chars k c (by rw [same]; exact List.mem_cons_self)).1
  · intro c rest same
    exact (dotted_plain chars k c (by rw [same]; exact List.mem_append_right _ List.mem_cons_self)).1

theorem SuffixText.trimmed (k : Nat) : trim (dotted suffix k) = dotted suffix k := dotted_trimmed text.chars k

theorem SuffixText.unnumbered (k : Nat) : isIPv4 (dotted suffix k) = false := by
  unfold isIPv4
  cases k with
  | zero =>
    have few := text.few
    have many : ¬(suffix.splitOn '.').length = 4 := by omega
    rw [dotted,List.replicate_zero,List.append_nil]
    simp [many]
  | succ k =>
    rw [dotted_succ,dotted_split]
    simp

omit text in
theorem free_not_IPv6 (free : ':' ∉ suffix) : isIPv6 suffix = false := by
  have single : suffix.splitOn ':' = [suffix] := List.splitOn_eq_singleton free
  have none : suffix.dropWhile (· ≠ ':') = [] := by
    apply List.dropWhile_eq_nil_iff.mpr
    intro c member
    exact decide_eq_true fun same => free (same ▸ member)
  have front : startsWith suffix [':',':'] = false := by
    apply Bool.eq_false_iff.mpr
    intro starts
    obtain ⟨rest,same⟩ := startsWith_iff.mp starts
    exact free (by rw [same]; exact List.mem_cons_self)
  unfold isIPv6
  rw [single,none,front]
  simp [startsWith]

theorem SuffixText.named (k : Nat) : isIP (dotted suffix k) = false := by
  unfold isIP
  rw [text.unnumbered,free_not_IPv6 fun colon => (text.dotted_chars k ':' colon).2 rfl]
  rfl

theorem SuffixText.hostname (k : Nat) : isValidHostname (dotted suffix k) = decide (k ≤ 1) := by
  have short := text.short
  match k with
  | 0 =>
    unfold isValidHostname
    rw [dotted,List.replicate_zero,List.append_nil,if_neg (not_or.mpr ⟨text.filled,by omega⟩),text.undotted_ends]
    simp [text.filled,text.labels]
  | 1 =>
    unfold isValidHostname
    rw [dotted_succ,dotted,List.replicate_zero,List.append_nil,if_neg (by simp; omega),dotted_ends]
    simp [text.filled,text.labels]
  | k+2 =>
    unfold isValidHostname
    rw [dotted_succ (k+1),dotted_ends,if_pos rfl,List.dropLast_concat,dotted_succ k]
    dsimp only
    rw [dotted_split]
    simp [isValidLabel,domainLabel]

end SuffixTexts

def PublicSuffix (toLowerCase : Text → Text) (host : Text) : Prop :=
  getPublicSuffix toLowerCase host = some (withoutDots (toLowerCase host))

-- How many dots a text ends in.
def dots (text : Text) : Nat := (text.rtakeWhile (· = '.')).length

theorem dotted_dots (text : Text) : dotted (withoutDots text) (dots text) = text := by
  have same : text.rtakeWhile (· = '.') = List.replicate (dots text) '.' := by
    apply List.eq_replicate_of_mem
    intro c member
    have dot : decide (c = '.') = true := List.mem_rtakeWhile_imp (p := fun c => decide (c = '.')) member
    exact of_decide_eq_true dot
  rw [dotted,← same]
  exact List.rdropWhile_append_rtakeWhile

section Lowered
variable {toLowerCase : Text → Text}

theorem PublicSuffix.text (suffix : PublicSuffix toLowerCase host) : SuffixText (withoutDots (toLowerCase host)) :=
  suffix_text toLowerCase suffix

theorem PublicSuffix.filled (suffix : PublicSuffix toLowerCase host) : host ≠ [] := by
  rintro rfl
  cases suffix

-- The suffix of a text in small letters with dots behind it is that of the text.
theorem PublicSuffix.dotted (suffix : PublicSuffix toLowerCase host) (lowers : Lowers toLowerCase) (k : Nat) :
    getPublicSuffix toLowerCase (dotted (withoutDots (toLowerCase host)) k) = some (withoutDots (toLowerCase host)) := by
  have text := suffix.text
  have stays : toLowerCase (TldUtils.dotted (withoutDots (toLowerCase host)) k) = TldUtils.dotted (withoutDots (toLowerCase host)) k := by
    apply lowers.stays
    · intro c member
      rcases List.mem_append.mp member with own | dot
      · exact text.ascii c own
      · rw [List.eq_of_mem_replicate dot]
        decide
    · intro c member
      rcases List.mem_append.mp member with own | dot
      · exact lowers.small host c ((List.rdropWhile_prefix _ _).subset own)
      · rw [List.eq_of_mem_replicate dot]
        decide
  have filled : TldUtils.dotted (withoutDots (toLowerCase host)) k ≠ [] := List.append_ne_nil_of_left_ne_nil text.filled _
  rw [suffix_same toLowerCase filled suffix.filled (by rw [stays,text.withoutDots]),suffix]

theorem PublicSuffix.parsed (suffix : PublicSuffix toLowerCase host) (lowers : Lowers toLowerCase) :
    parse toLowerCase host =
      if dots (toLowerCase host) ≤ 2 then
        ⟨some (TldUtils.dotted (withoutDots (toLowerCase host)) (dots (toLowerCase host)-1)),false,some (withoutDots (toLowerCase host))⟩
      else ⟨none,false,none⟩ := by
  have text := suffix.text
  have whole := dotted_dots (toLowerCase host)
  unfold parse
  rw [if_neg suffix.filled]
  conv => lhs; rw [← whole]
  dsimp only
  rw [text.trimmed,dotted_shorter text.undotted,text.named,if_neg Bool.false_ne_true,text.hostname,suffix.dotted lowers]
  by_cases few : dots (toLowerCase host) ≤ 2
  · rw [if_pos few,decide_eq_true (by omega),if_neg (by decide)]
  · rw [if_neg few,decide_eq_false (by omega),if_pos rfl]

-- A public suffix is refused with up to one dot, and passes with two of them.
theorem PublicSuffix.accepted (suffix : PublicSuffix toLowerCase host) (lowers : Lowers toLowerCase) (v : Validator)
    (hostOf : v.hostOf = parse toLowerCase) (allowIp : Bool) :
    accepted v allowIp false host = decide (dots (toLowerCase host) = 2) := by
  have text := suffix.text
  unfold Validation.accepted
  rw [hostOf,suffix.parsed lowers]
  match dots (toLowerCase host) with
  | 0 => simp [TldUtils.dotted]
  | 1 => simp [TldUtils.dotted]
  | 2 => simp [TldUtils.dotted,text.filled]
  | k+3 => simp

end Lowered

end AdblockCompiler.TldUtils

namespace AdblockCompiler.Validation
open JsText Rules TldUtils

-- The validation with the functions of TldUtils.
def withTlds (toLowerCase : Text → Text) (parse : Text → Option AnyRule) (modifierErrors : NetworkRule → List Text) : Validator where
  parse := parse
  hostOf := TldUtils.parse toLowerCase
  getPublicSuffix := TldUtils.getPublicSuffix toLowerCase
  modifierErrors := modifierErrors

-- The names that a rule blocks as a whole.
inductive Names : AnyRule → Text → Prop where
  | host (member : name ∈ hostnames) : Names (.host hostnames) name
  | anchored (free : limited rule = false) (shape : rule.pattern = anchored name) : Names (.network rule) name
  | blocking (free : limited rule = false) (shape : rule.pattern = blocking name) : Names (.network rule) name
  | wildcard (free : limited rule = false) (shape : rule.pattern = blocking ('*' :: '.' :: name)) : Names (.network rule) name

-- The public suffixes that get through: with two dots behind them where the
-- host is looked at, in any other spelling behind a wildcard, and any without a
-- separator.
inductive Leaks (toLowerCase : Text → Text) (v : Validator) (allowIp : Bool) : AnyRule → Text → Prop where
  | host (two : dots (toLowerCase name) = 2) (others : ∀ hostname ∈ hostnames, accepted v allowIp false hostname = true) :
      Leaks toLowerCase v allowIp (.host hostnames) name
  | anchored (known : supported rule = true) (plain : isPlain rule.pattern = true) (shape : rule.pattern = anchored name)
      (size : 3 ≤ name.length) : Leaks toLowerCase v allowIp (.network rule) name
  | blocking (known : supported rule = true) (plain : isPlain rule.pattern = true) (shape : rule.pattern = blocking name)
      (two : dots (toLowerCase name) = 2) : Leaks toLowerCase v allowIp (.network rule) name
  | wildcard (known : supported rule = true) (plain : isPlain rule.pattern = true) (shape : rule.pattern = blocking ('*' :: '.' :: name))
      (spelled : name ≠ withoutDots (toLowerCase name)) : Leaks toLowerCase v allowIp (.network rule) name

section Leaking
variable {toLowerCase : Text → Text} {v : Validator}

theorem plain_bars (bars : startsWith pattern ['|','|'] = true) (plain : isPlain pattern = true) : ∀ c ∈ pattern, isPatternChar c = true := by
  obtain ⟨rest,rfl⟩ := startsWith_iff.mp bars
  have front : startsWith (['|','|'] ++ rest) "://".toList = false := rfl
  unfold isPlain at plain
  rw [front,if_neg Bool.false_ne_true,Bool.and_eq_true] at plain
  exact List.all_eq_true.mp plain.2

theorem pattern_ascii {name : Text} (plain : ∀ c ∈ name, isPatternChar c = true) : ∀ c ∈ name, c.toNat < 128 := by
  intro c member
  rcases Bool.or_eq_true_iff.mp (plain c member) with letter | sign
  · exact alphanum_ascii letter
  · have signs := List.contains_iff_mem.mp sign
    simp only [List.mem_cons,List.not_mem_nil,or_false] at signs
    rcases signs with rfl | rfl | rfl | rfl | rfl <;> decide

-- Of the characters of a pattern, a public suffix has letters, digits, dashes
-- and dots only.
theorem suffix_free (lowers : Lowers toLowerCase) (suffix : PublicSuffix toLowerCase name) (plain : ∀ c ∈ name, isPatternChar c = true)
    (letter : c.toLower = c) (foreign : isLabelChar c = false) (dot : c ≠ '.') : c ∉ name := by
  intro member
  have low : c ∈ toLowerCase name := by
    rw [lowers.ascii name (pattern_ascii plain)]
    exact List.mem_map.mpr ⟨c,member,letter⟩
  rw [← dotted_dots (toLowerCase name)] at low
  rcases List.mem_append.mp low with own | dots
  · rcases suffix.text.chars c own with label | same
    · rw [foreign] at label
      cases label
    · exact dot same
  · exact dot (List.eq_of_mem_replicate dots)

theorem hostnames_valid (allowIp : Bool) (currentSourceName : Option Text) (ruleText : Text) (lineNumber : Nat) (hostnames : List Text) :
    (validateHostnames v allowIp currentSourceName ruleText lineNumber hostnames).valid = true ↔
      ∀ hostname ∈ hostnames, accepted v allowIp false hostname = true := by
  induction hostnames with
  | nil => simp [validateHostnames]
  | cons hostname rest ih =>
    unfold validateHostnames
    dsimp only
    rw [List.forall_mem_cons,← ih,← hostname_accepted v allowIp currentSourceName false ruleText lineNumber hostname]
    cases good : (validateHostname v allowIp currentSourceName hostname ruleText false lineNumber).valid with
    | true => simp
    | false => simp [good]

theorem host_leaks (lowers : Lowers toLowerCase) (hostOf : v.hostOf = TldUtils.parse toLowerCase) (allowIp : Bool)
    (suffix : PublicSuffix toLowerCase name) (member : name ∈ hostnames) (ruleText : Text) :
    (validateHostRule v allowIp none hostnames ruleText 0).valid = true ↔ Leaks toLowerCase v allowIp (.host hostnames) name := by
  unfold validateHostRule
  rw [if_neg (List.ne_nil_of_mem member),hostnames_valid]
  constructor
  · intro all
    have own := all name member
    rw [suffix.accepted lowers v hostOf,decide_eq_true_eq] at own
    exact .host own all
  · rintro (⟨-,others⟩)
    exact others

theorem shapes_apart (name : Text) : anchored name ≠ blocking name ∧ anchored name ≠ blocking ('*' :: '.' :: name) ∧
    blocking name ≠ blocking ('*' :: '.' :: name) := by
  refine ⟨fun same => ?_,fun same => ?_,fun same => ?_⟩
  · have size := congrArg List.length same
    simp [blocking] at size
  · have size := congrArg List.length same
    simp [blocking,anchored] at size
  · have size := congrArg List.length same
    simp [blocking,anchored] at size

theorem anchored_member (member : c ∈ name) : c ∈ anchored name := List.mem_cons_of_mem _ (List.mem_cons_of_mem _ member)

-- A suffix in its own spelling ends in no dot.
theorem spelled_dots (lowers : Lowers toLowerCase) (suffix : PublicSuffix toLowerCase name) (spelled : name = withoutDots (toLowerCase name)) :
    dots (toLowerCase name) = 0 := by
  have text : SuffixText name := by
    rw [spelled]
    exact suffix.text
  have small : ∀ c ∈ name, c.isUpper = false := by
    intro c member
    rw [spelled] at member
    exact lowers.small name c ((List.rdropWhile_prefix _ _).subset member)
  have stays : toLowerCase name = name := lowers.stays text.ascii small
  have size := congrArg List.length (dotted_dots (toLowerCase name))
  rw [← spelled,stays,dotted,List.length_append,List.length_replicate] at size
  rw [stays]
  omega

-- A text with two dots behind a suffix is no short one.
theorem two_dots (lowers : Lowers toLowerCase) (suffix : PublicSuffix toLowerCase name) (plain : ∀ c ∈ name, isPatternChar c = true)
    (two : dots (toLowerCase name) = 2) : 3 ≤ name.length := by
  have front := List.length_pos_of_ne_nil suffix.text.filled
  have size := congrArg List.length (dotted_dots (toLowerCase name))
  rw [dotted,two,List.length_append,List.length_replicate,lowers.ascii name (pattern_ascii plain)] at size
  have same : (lowerCase name).length = name.length := List.length_map _
  rw [lowers.ascii name (pattern_ascii plain)] at front
  omega

-- Every leak is of a rule whose modifiers are known and whose pattern has no
-- strange character.
theorem Leaks.known (leaks : Leaks toLowerCase v allowIp (.network rule) name) : supported rule = true ∧ isPlain rule.pattern = true := by
  cases leaks with
  | anchored known plain => exact ⟨known,plain⟩
  | blocking known plain => exact ⟨known,plain⟩
  | wildcard known plain => exact ⟨known,plain⟩

theorem valid_plain (bars : startsWith rule.pattern ['|','|'] = true) (hasLimitModifier : Bool) (ruleText : Text)
    (valid : (validatePattern v allowIp none rule hasLimitModifier ruleText 0).valid = true) : isPlain rule.pattern = true := by
  obtain ⟨rest,shape⟩ := startsWith_iff.mp bars
  have other : isRegex rule.pattern = false := by
    rw [shape]
    rfl
  by_contra strange
  rw [pattern_characters v allowIp none rule hasLimitModifier ruleText 0 other (Bool.not_eq_true _ ▸ strange)] at valid
  cases valid

section Network
variable (lowers : Lowers toLowerCase) (hostOf : v.hostOf = TldUtils.parse toLowerCase)
  (getPublicSuffix : v.getPublicSuffix = TldUtils.getPublicSuffix toLowerCase) (allowIp : Bool)
  (suffix : PublicSuffix toLowerCase name) (free : limited rule = false) (known : supported rule = true)
  (plain : isPlain rule.pattern = true) (ruleText : Text)
include lowers suffix known plain

theorem anchored_leaks (shape : rule.pattern = anchored name) :
    (validatePattern v allowIp none rule (limited rule) ruleText 0).valid = true ↔ Leaks toLowerCase v allowIp (.network rule) name := by
  have bars : startsWith rule.pattern ['|','|'] = true := startsWith_iff.mpr ⟨name,shape⟩
  have inside : ∀ c ∈ name, isPatternChar c = true := fun c member =>
    plain_bars bars plain c (by rw [shape]; exact anchored_member member)
  have caret : '^' ∉ name := suffix_free lowers suffix inside (by decide) (by decide) (by decide)
  rw [anchored_valid v allowIp none rule (limited rule) ruleText 0 shape caret]
  constructor
  · exact fun valid => .anchored known plain shape (valid.2.resolve_left suffix.filled)
  · intro leaks
    cases leaks with
    | anchored _ _ _ size => exact ⟨plain,.inr size⟩
    | blocking _ _ other => exact absurd (shape.symm.trans other) (shapes_apart name).1
    | wildcard _ _ other => exact absurd (shape.symm.trans other) (shapes_apart name).2.1

include hostOf free in
theorem blocking_leaks (shape : rule.pattern = blocking name) :
    (validatePattern v allowIp none rule (limited rule) ruleText 0).valid = true ↔ Leaks toLowerCase v allowIp (.network rule) name := by
  have whole : rule.pattern = blocking name ++ [] := by rw [shape,List.append_nil]
  have bars : startsWith rule.pattern ['|','|'] = true := startsWith_iff.mpr ⟨name ++ ['^'],shape⟩
  have inside : ∀ c ∈ name, isPatternChar c = true := fun c member =>
    plain_bars bars plain c (by rw [shape]; exact List.mem_append_left _ (anchored_member member))
  have caret : '^' ∉ name := suffix_free lowers suffix inside (by decide) (by decide) (by decide)
  have star : '*' ∉ name := suffix_free lowers suffix inside (by decide) (by decide) (by decide)
  rw [blocking_valid v allowIp none rule (limited rule) ruleText 0 whole caret,free]
  constructor
  · rintro ⟨-,passes⟩
    have host := (passes.host star).resolve_left suffix.filled
    rw [suffix.accepted lowers v hostOf,decide_eq_true_eq] at host
    exact .blocking known plain shape host
  · intro leaks
    cases leaks with
    | anchored _ _ other => exact absurd (other.symm.trans shape) (shapes_apart name).1
    | wildcard _ _ other => exact absurd (shape.symm.trans other) (shapes_apart name).2.2
    | blocking _ _ _ two =>
      have size := two_dots lowers suffix inside two
      have host : accepted v allowIp false name = true := by rw [suffix.accepted lowers v hostOf,two]; rfl
      exact ⟨plain,⟨fun behind => absurd behind List.not_mem_nil,.inr size,fun inner => absurd inner star,fun _ => .inr host,fun _ => .inl rfl⟩⟩

include hostOf getPublicSuffix free in
theorem wildcard_leaks (shape : rule.pattern = blocking ('*' :: '.' :: name)) :
    (validatePattern v allowIp none rule (limited rule) ruleText 0).valid = true ↔ Leaks toLowerCase v allowIp (.network rule) name := by
  have whole : rule.pattern = blocking ('*' :: '.' :: name) ++ [] := by rw [shape,List.append_nil]
  have bars : startsWith rule.pattern ['|','|'] = true := startsWith_iff.mpr ⟨'*' :: '.' :: name ++ ['^'],shape⟩
  have inside : ∀ c ∈ name, isPatternChar c = true := fun c member =>
    plain_bars bars plain c (by
      rw [shape]
      exact List.mem_append_left _ (anchored_member (List.mem_cons_of_mem _ (List.mem_cons_of_mem _ member))))
  have caret : '^' ∉ name := suffix_free lowers suffix inside (by decide) (by decide) (by decide)
  have absent : '^' ∉ '*' :: '.' :: name := by
    simpa using caret
  have starts : startsWith ('*' :: '.' :: name) ['*','.'] = true := startsWith_iff.mpr ⟨name,rfl⟩
  have own : v.getPublicSuffix name = some (withoutDots (toLowerCase name)) := by
    rw [getPublicSuffix]
    exact suffix
  rw [blocking_valid v allowIp none rule (limited rule) ruleText 0 whole absent,free]
  constructor
  · rintro ⟨-,passes⟩
    refine .wildcard known plain shape fun spelled => ?_
    have host := passes.wild List.mem_cons_self starts (own.trans (congrArg some spelled.symm))
    change accepted v allowIp false name = true at host
    rw [suffix.accepted lowers v hostOf,spelled_dots lowers suffix spelled] at host
    cases host
  · intro leaks
    cases leaks with
    | anchored _ _ other => exact absurd (other.symm.trans shape) (shapes_apart name).2.1
    | blocking _ _ other => exact absurd (other.symm.trans shape) (shapes_apart name).2.2
    | wildcard _ _ _ spelled =>
      have size : 3 ≤ ('*' :: '.' :: name).length := by
        have filled := List.length_pos_of_ne_nil suffix.filled
        rw [List.length_cons,List.length_cons]
        omega
      have star : '*' ∈ '*' :: '.' :: name := List.mem_cons_self
      have free : v.getPublicSuffix name ≠ some name := fun same => spelled (Option.some.inj (same.symm.trans own))
      exact ⟨plain,⟨fun _ => star,.inr size,fun _ _ same => absurd same free,fun none => absurd star none,fun none => absurd star none⟩⟩

end Network

theorem network_leaks (lowers : Lowers toLowerCase) (hostOf : v.hostOf = TldUtils.parse toLowerCase)
    (getPublicSuffix : v.getPublicSuffix = TldUtils.getPublicSuffix toLowerCase) (allowIp : Bool)
    (suffix : PublicSuffix toLowerCase name) (names : Names (.network rule) name) (ruleText : Text) :
    supported rule = true ∧ (validatePattern v allowIp none rule (limited rule) ruleText 0).valid = true ↔
      Leaks toLowerCase v allowIp (.network rule) name := by
  have bars : startsWith rule.pattern ['|','|'] = true := by
    cases names with
    | anchored _ shape => exact startsWith_iff.mpr ⟨_,shape⟩
    | blocking _ shape => exact startsWith_iff.mpr ⟨_,shape⟩
    | wildcard _ shape => exact startsWith_iff.mpr ⟨_,shape⟩
  have exact_ (known : supported rule = true) (plain : isPlain rule.pattern = true) :
      (validatePattern v allowIp none rule (limited rule) ruleText 0).valid = true ↔
        Leaks toLowerCase v allowIp (.network rule) name := by
    cases names with
    | anchored _ shape => exact anchored_leaks lowers allowIp suffix known plain ruleText shape
    | blocking free shape => exact blocking_leaks lowers hostOf allowIp suffix free known plain ruleText shape
    | wildcard free shape => exact wildcard_leaks lowers hostOf getPublicSuffix allowIp suffix free known plain ruleText shape
  constructor
  · rintro ⟨known,valid⟩
    exact (exact_ known (valid_plain bars _ ruleText valid)).mp valid
  · intro leaks
    exact ⟨leaks.known.1,(exact_ leaks.known.1 leaks.known.2).mpr leaks⟩

theorem names_own (parsed : v.parse (trim ruleText) = some rule) (filled : trim ruleText ≠ []) (names : Names rule name) :
    isCommentOrEmpty (v.parse (trim ruleText)) ruleText = false := by
  unfold isCommentOrEmpty
  rw [if_neg filled,parsed]
  cases names <;> rfl

-- A rule that names a public suffix is kept exactly when it is one of the leaks.
theorem suffix_kept (lowers : Lowers toLowerCase) (hostOf : v.hostOf = TldUtils.parse toLowerCase)
    (getPublicSuffix : v.getPublicSuffix = TldUtils.getPublicSuffix toLowerCase) (allowIp : Bool) (this : ValidateTransformation)
    (rules : List Text) (parsed : v.parse (trim ruleText) = some rule) (filled : trim ruleText ≠ []) (names : Names rule name)
    (suffix : PublicSuffix toLowerCase name) :
    ruleText ∈ (executeSync v allowIp this rules).2 ↔ ruleText ∈ rules ∧ Leaks toLowerCase v allowIp rule name := by
  have own := names_own parsed filled names
  cases rule with
  | host hostnames =>
    cases names with
    | host member =>
      rw [rule_kept v allowIp this rules ruleText own,← host_leaks lowers hostOf allowIp suffix member ruleText]
      unfold isValidParsedRule
      rw [if_neg filled,parsed]
  | network rule =>
    rw [network_kept v allowIp this rules parsed filled,
      network_leaks lowers hostOf getPublicSuffix allowIp suffix names ruleText]
  | empty => cases names
  | comment => cases names
  | invalid => cases names
  | cosmetic => cases names
  | unknown => cases names

end Leaking

-- No kept rule blocks a whole public suffix exactly when the list has no rule of
-- those that leak, whatever counts as a hostname.
theorem suffixes_kept_exact (lowers : Lowers toLowerCase) (IsHostname : Text → Prop) (parse : Text → Option AnyRule)
    (modifierErrors : NetworkRule → List Text) (allowIp : Bool) (this : ValidateTransformation) (rules : List Text) :
    (∀ ruleText ∈ (executeSync (withTlds toLowerCase parse modifierErrors) allowIp this rules).2, trim ruleText ≠ [] →
        ∀ rule, parse (trim ruleText) = some rule → ∀ h, IsHostname h → Names rule h → ¬PublicSuffix toLowerCase h) ↔
      ∀ ruleText ∈ rules, trim ruleText ≠ [] → ∀ rule, parse (trim ruleText) = some rule → ∀ h, IsHostname h → Names rule h →
        PublicSuffix toLowerCase h → ¬Leaks toLowerCase (withTlds toLowerCase parse modifierErrors) allowIp rule h := by
  constructor
  · intro sound ruleText member filled rule parsed h hostname names suffix leaks
    have kept := (suffix_kept (v := withTlds toLowerCase parse modifierErrors) lowers rfl rfl allowIp this rules parsed filled names
      suffix).mpr ⟨member,leaks⟩
    exact sound ruleText kept filled rule parsed h hostname names suffix
  · intro free ruleText kept filled rule parsed h hostname names suffix
    obtain ⟨member,leaks⟩ := (suffix_kept (v := withTlds toLowerCase parse modifierErrors) lowers rfl rfl allowIp this rules parsed
      filled names suffix).mp kept
    exact free ruleText member filled rule parsed h hostname names suffix leaks

-- A hosts rule of a suffix is no leak.
theorem suffix_host_dropped :
    "0.0.0.0 com".toList ∉
      (executeSync (withTlds lowerCase basicValidator.parse (fun _ => [])) false {} ["0.0.0.0 com".toList]).2 := by
  intro kept
  have own : basicValidator.parse (trim "0.0.0.0 com".toList) = some (.host ["com".toList]) := by decide +kernel
  have suffix : PublicSuffix lowerCase "com".toList := by
    unfold PublicSuffix
    decide +kernel
  refine (suffixes_kept_exact lowerCase_lowers (fun h => TldUtils.isValidHostname h = true) basicValidator.parse (fun _ => [])
    false {} ["0.0.0.0 com".toList]).mpr ?_ _ kept (by decide) _ own "com".toList (by decide +kernel)
    (.host (List.mem_singleton.mpr rfl)) suffix
  intro ruleText member _ rule parsed h _ names _ leaks
  rw [List.mem_singleton.mp member] at parsed
  obtain rfl := Option.some.inj (own.symm.trans parsed)
  cases leaks with
  | host two =>
    cases names with
    | host member =>
      rw [List.mem_singleton.mp member] at two
      exact absurd two (by decide)

-- The suffix is looked up in small letters and compared as it is written.
theorem capital_suffix_kept :
    ¬∀ ruleText ∈ (executeSync (withTlds lowerCase basicValidator.parse (fun _ => [])) false {} ["||*.ORG^".toList]).2,
      trim ruleText ≠ [] → ∀ rule, basicValidator.parse (trim ruleText) = some rule →
        ∀ h, TldUtils.isValidHostname h = true → Names rule h → ¬PublicSuffix lowerCase h := by
  intro sound
  have kept : "||*.ORG^".toList ∈
      (executeSync (withTlds lowerCase basicValidator.parse (fun _ => [])) false {} ["||*.ORG^".toList]).2 := by decide +kernel
  have parsed : basicValidator.parse (trim "||*.ORG^".toList) = some (.network { pattern := "||*.ORG^".toList }) := by decide +kernel
  have suffix : PublicSuffix lowerCase "ORG".toList := by
    unfold PublicSuffix
    decide +kernel
  exact sound _ kept (by decide) _ parsed "ORG".toList (by decide +kernel) (.wildcard rfl rfl) suffix

end AdblockCompiler.Validation
