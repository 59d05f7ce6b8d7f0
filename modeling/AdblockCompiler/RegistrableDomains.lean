import AdblockCompiler.PublicSuffixes

-- getPublicSuffix and getDomain on the labels of a hostname.
namespace AdblockCompiler.TldUtils
open JsText Rules Validation

def Aligned (suffix name : Text) : Prop := suffix.splitOn '.' <:+ name.splitOn '.'

-- What the two functions say about a hostname of that suffix.
structure Coherent (toLowerCase : Text → Text) (host suffix : Text) : Prop where
  found : getPublicSuffix toLowerCase host = some suffix
  aligned : Aligned suffix (withoutDots (toLowerCase host))
  fixed : getPublicSuffix toLowerCase suffix = some suffix
  bare : getDomain toLowerCase host = none ↔ withoutDots (toLowerCase host) = suffix
  oneMore : ∀ domain, getDomain toLowerCase host = some domain →
    Aligned domain (withoutDots (toLowerCase host)) ∧ (domain.splitOn '.').length = (suffix.splitOn '.').length+1
  same : (getDomain toLowerCase host).bind (getDomain toLowerCase) = getDomain toLowerCase host
  below : ∀ label, isValidLabel label = true → (parse toLowerCase (label ++ '.' :: host)).isIp = false →
    getDomain toLowerCase host ≠ none → getDomain toLowerCase (label ++ '.' :: host) = getDomain toLowerCase host

section Labels

def lastLabels (n : Nat) (labels : List Text) : List Text := labels.drop (labels.length-n)

-- The labels of the suffix and of the domain.
def suffixLabels (labels : List Text) : List Text :=
  if 2 ≤ labels.length ∧ lastParts 2 labels ∈ MULTI_PART_SUFFIXES then lastLabels 2 labels else lastLabels 1 labels

def domainLabels (labels : List Text) : List Text := lastLabels ((suffixLabels labels).length+1) labels

theorem lastLabels_length (n : Nat) (labels : List Text) : (lastLabels n labels).length = min n labels.length := by
  simp only [lastLabels,List.length_drop]
  omega

theorem lastLabels_suffix (n : Nat) (labels : List Text) : lastLabels n labels <:+ labels := List.drop_suffix _ labels

theorem lastLabels_append (front : List Text) (enough : n ≤ rest.length) : lastLabels n (front ++ rest) = lastLabels n rest := by
  have past : front.length+rest.length-n = front.length+(rest.length-n) := by omega
  rw [lastLabels,List.length_append,past,List.drop_length_add_append]
  rfl

theorem suffixLabels_suffix (labels : List Text) : suffixLabels labels <:+ labels := by
  unfold suffixLabels
  split
  · exact lastLabels_suffix 2 labels
  · exact lastLabels_suffix 1 labels

theorem suffixLabels_length (filled : labels ≠ []) : 1 ≤ (suffixLabels labels).length ∧ (suffixLabels labels).length ≤ 2 := by
  have some_ := List.length_pos_of_ne_nil filled
  unfold suffixLabels
  split
  · rw [lastLabels_length]
    omega
  · rw [lastLabels_length]
    omega

-- Two labels say what the suffix is.
theorem suffixLabels_append (front : List Text) (enough : 2 ≤ rest.length) : suffixLabels (front ++ rest) = suffixLabels rest := by
  have size : 2 ≤ (front ++ rest).length := by
    rw [List.length_append]
    omega
  have two : lastParts 2 (front ++ rest) = lastParts 2 rest := congrArg ['.'].intercalate (lastLabels_append front enough)
  unfold suffixLabels
  rw [two,lastLabels_append front enough,lastLabels_append front (by omega : 1 ≤ rest.length)]
  simp only [enough,size]

theorem suffixLabels_self (filled : labels ≠ []) : suffixLabels (suffixLabels labels) = suffixLabels labels := by
  obtain ⟨front,whole⟩ := suffixLabels_suffix labels
  have bounds := suffixLabels_length filled
  by_cases two : (suffixLabels labels).length = 2
  · rw [← suffixLabels_append front (by omega : 2 ≤ (suffixLabels labels).length),whole]
  · obtain ⟨label,single⟩ := List.length_eq_one_iff.mp (by omega : (suffixLabels labels).length = 1)
    rw [single]
    simp [suffixLabels,lastLabels]

theorem suffixLabels_whole (labels : List Text) : labels.length ≤ (suffixLabels labels).length ↔ labels = suffixLabels labels := by
  constructor
  · intro few
    exact ((suffixLabels_suffix labels).eq_of_length_le few).symm
  · intro whole
    exact Nat.le_of_eq (congrArg List.length whole)

theorem domainLabels_length (more : (suffixLabels labels).length < labels.length) :
    (domainLabels labels).length = (suffixLabels labels).length+1 := by
  rw [domainLabels,lastLabels_length]
  omega

theorem domainLabels_suffix (labels : List Text) : domainLabels labels <:+ labels := lastLabels_suffix _ labels

theorem suffix_of_domain (more : (suffixLabels labels).length < labels.length) : suffixLabels (domainLabels labels) = suffixLabels labels := by
  have filled : labels ≠ [] := by
    apply List.ne_nil_of_length_pos
    omega
  have bounds := suffixLabels_length filled
  have size := domainLabels_length more
  obtain ⟨front,whole⟩ := domainLabels_suffix labels
  conv => rhs; rw [← whole]
  exact (suffixLabels_append front (by omega)).symm

theorem domainLabels_self (more : (suffixLabels labels).length < labels.length) : domainLabels (domainLabels labels) = domainLabels labels := by
  have size := domainLabels_length more
  rw [domainLabels,suffix_of_domain more,← size,lastLabels,Nat.sub_self,List.drop_zero]

theorem domainLabels_cons (label : Text) (more : (suffixLabels labels).length < labels.length) :
    suffixLabels (label :: labels) = suffixLabels labels ∧ domainLabels (label :: labels) = domainLabels labels := by
  have filled : labels ≠ [] := by
    apply List.ne_nil_of_length_pos
    omega
  have bounds := suffixLabels_length filled
  have same : suffixLabels ([label] ++ labels) = suffixLabels labels := suffixLabels_append [label] (by omega)
  refine ⟨same,?_⟩
  rw [domainLabels,show label :: labels = [label] ++ labels from rfl,same,lastLabels_append [label] (by omega)]
  rfl

end Labels

section Names
variable {toLowerCase : Text → Text}

def joined (labels : List Text) : Text := ['.'].intercalate labels

-- The labels of a name in small letters.
structure Named (labels : List Text) : Prop where
  filled : labels ≠ []
  valid : ∀ label ∈ labels, isValidLabel label = true
  small : ∀ label ∈ labels, ∀ c ∈ label, c.isUpper = false

theorem label_free (valid : isValidLabel label = true) : '.' ∉ label := by
  intro dot
  exact absurd (label_chars valid '.' dot) (by decide)

variable {labels : List Text} (named : Named labels)
include named

theorem Named.split : (joined labels).splitOn '.' = labels :=
  List.splitOn_intercalate '.' (fun label member => label_free (named.valid label member)) named.filled

theorem Named.chars : ∀ c ∈ joined labels, (isLabelChar c = true ∨ c = '.') ∧ c.isUpper = false := by
  intro c member
  obtain rfl | ⟨label,inside,own⟩ := mem_join member
  · decide
  · exact ⟨.inl (label_chars (named.valid label inside) c own),named.small label inside c own⟩

theorem Named.ascii : ∀ c ∈ joined labels, c.toNat < 128 := by
  intro c member
  obtain label | rfl := (named.chars c member).1
  · exact (labelChar_bounds label).1
  · decide

theorem Named.bare : ∀ front, joined labels ≠ front ++ ['.'] := by
  intro front same
  have split := named.split
  rw [same,dotted_split] at split
  have empty : [] ∈ labels := by
    rw [← split]
    simp
  exact absurd (named.valid [] empty) (by decide)

theorem Named.text_filled : joined labels ≠ [] := by
  intro same
  have split := named.split
  rw [same] at split
  have empty : [] ∈ labels := by
    rw [← split]
    simp
  exact absurd (named.valid [] empty) (by decide)

theorem Named.suffix (suffix : rest <:+ labels) (filled : rest ≠ []) : Named rest where
  filled := filled
  valid label member := named.valid label (suffix.subset member)
  small label member := named.small label (suffix.subset member)

theorem Named.unnumbered (few : labels.length ≤ 3) : isIP (joined labels) = false := by
  have free : ':' ∉ joined labels := by
    intro colon
    have member : ':' ∈ dotted (joined labels) 0 := List.mem_append_left _ colon
    exact (dotted_plain (fun c inside => (named.chars c inside).1) 0 ':' member).2 rfl
  have other : ¬labels.length = 4 := by omega
  rw [isIP,free_not_IPv6 free,isIPv4,named.split]
  simp [other]

end Names

section Lowered

theorem toLower_alphanum (c : Char) : c.toLower.isAlphanum = c.isAlphanum := by
  by_cases upper : c.isUpper = true
  · have letter : c.isAlpha = true := by simp [Char.isAlpha,upper]
    simp [Char.isAlphanum,letter]
  · rw [Char.toLower_eq_of_not_isUpper upper]

theorem toLower_same {c mark : Char} (other : mark.isAlpha = false) : c.toLower = mark ↔ c = mark := by
  by_cases upper : c.isUpper = true
  · have letter : c.isAlpha = true := by simp [Char.isAlpha,upper]
    constructor
    · intro same
      have lowered := c.isAlpha_toLower_eq_isAlpha
      rw [same,other,letter] at lowered
      cases lowered
    · intro same
      rw [same,other] at letter
      cases letter
  · rw [Char.toLower_eq_of_not_isUpper upper]

theorem toLower_label (c : Char) : isLabelChar c.toLower = isLabelChar c := by
  apply Bool.eq_iff_iff.mpr
  have dash : Char.isAlpha '-' = false := rfl
  simp only [isLabelChar,Bool.or_eq_true,beq_iff_eq,toLower_alphanum,toLower_same dash]

theorem lowered_label (valid : isValidLabel label = true) : isValidLabel (lowerCase label) = true := by
  unfold isValidLabel domainLabel at valid ⊢
  simpa [lowerCase,List.all_map,Function.comp_def,toLower_label,toLower_alphanum,Option.any_map] using valid

theorem lowered_joined (labels : List Text) : lowerCase (joined labels) = joined (labels.map lowerCase) := by
  induction labels with
  | nil => rfl
  | cons label rest ih =>
    by_cases last : rest = []
    · rw [last]
      simp [joined]
    · have later : rest.map lowerCase ≠ [] := by simpa using last
      have dot : lowerCase ['.'] = ['.'] := rfl
      rw [joined,List.intercalate_cons_of_ne_nil last,List.map_cons,joined,List.intercalate_cons_of_ne_nil later]
      rw [lowerCase,List.map_append,List.map_append]
      exact congrArg (lowerCase label ++ lowerCase ['.'] ++ ·) ih

theorem lowered_named (filled : labels ≠ []) (valid : ∀ label ∈ labels, isValidLabel label = true) : Named (labels.map lowerCase) where
  filled := by simpa using filled
  valid := by
    intro label member
    obtain ⟨own,inside,rfl⟩ := List.mem_map.mp member
    exact lowered_label (valid own inside)
  small := by
    intro label member c letter
    obtain ⟨own,-,rfl⟩ := List.mem_map.mp member
    exact lowerCase_lowers.small own c letter

end Lowered

-- A name in any letters, with at most one dot behind it.
structure Spells (host : Text) (labels : List Text) : Prop where
  named : Named labels
  ascii : ∀ c ∈ host, c.toNat < 128
  text : ∃ k ≤ 1, lowerCase host = dotted (joined labels) k

section Spelling

theorem label_ascii (valid : isValidLabel label = true) : ∀ c ∈ label, c.toNat < 128 :=
  fun c member => (labelChar_bounds (label_chars valid c member)).1

theorem joined_ascii (valid : ∀ label ∈ labels, isValidLabel label = true) : ∀ c ∈ joined labels, c.toNat < 128 := by
  intro c member
  obtain rfl | ⟨label,inside,own⟩ := mem_join member
  · decide
  · exact label_ascii (valid label inside) c own

theorem valid_dotted (valid : isValidHostname host = true) :
    ∃ core, (∀ label ∈ core.splitOn '.', isValidLabel label = true) ∧ ∃ k ≤ 1, host = dotted core k := by
  unfold isValidHostname at valid
  split at valid
  · cases valid
  · cases ends : endsWith host ['.'] with
    | false =>
      simp only [ends,Bool.false_eq_true,if_false] at valid
      split at valid
      · cases valid
      · exact ⟨host,List.all_eq_true.mp valid,0,Nat.zero_le 1,(List.append_nil host).symm⟩
    | true =>
      obtain ⟨front,rfl⟩ := List.isSuffixOf_iff_suffix.mp ends
      simp only [dotted_ends,if_true,List.dropLast_concat] at valid
      split at valid
      · cases valid
      · exact ⟨front,List.all_eq_true.mp valid,1,Nat.le_refl 1,rfl⟩

theorem lowered_dotted (core : Text) (k : Nat) : lowerCase (dotted core k) = dotted (lowerCase core) k := by
  have dot : Char.toLower '.' = '.' := rfl
  simp [lowerCase,dotted,dot]

theorem dotted_ascii (ascii : ∀ c ∈ core, c.toNat < 128) (k : Nat) : ∀ c ∈ dotted core k, c.toNat < 128 := by
  intro c member
  obtain own | dot := List.mem_append.mp member
  · exact ascii c own
  · rw [List.eq_of_mem_replicate dot]
    decide

theorem valid_spells (valid : isValidHostname host = true) : ∃ labels, Spells host labels := by
  obtain ⟨core,labels,k,few,rfl⟩ := valid_dotted valid
  have whole : joined (core.splitOn '.') = core := List.intercalate_splitOn '.'
  have ascii := joined_ascii labels
  rw [whole] at ascii
  refine ⟨(core.splitOn '.').map lowerCase,lowered_named (List.splitOn_ne_nil '.' core) labels,dotted_ascii ascii k,k,few,?_⟩
  rw [← lowered_joined,whole,lowered_dotted]

theorem Spells.cons (spells : Spells host labels) (valid : isValidLabel label = true) :
    Spells (label ++ '.' :: host) (lowerCase label :: labels) where
  named := by
    have one : Named [lowerCase label] := @lowered_named [label] (by simp) (by simpa using valid)
    refine ⟨by simp,?_,?_⟩
    · intro other member
      obtain rfl | later := List.mem_cons.mp member
      · exact one.valid _ List.mem_cons_self
      · exact spells.named.valid other later
    · intro other member
      obtain rfl | later := List.mem_cons.mp member
      · exact one.small _ List.mem_cons_self
      · exact spells.named.small other later
  ascii := by
    intro c member
    obtain own | behind := List.mem_append.mp member
    · exact label_ascii valid c own
    · obtain rfl | later := List.mem_cons.mp behind
      · decide
      · exact spells.ascii c later
  text := by
    obtain ⟨k,few,same⟩ := spells.text
    refine ⟨k,few,?_⟩
    have dot : Char.toLower '.' = '.' := rfl
    have tail : joined (lowerCase label :: labels) = lowerCase label ++ ['.'] ++ joined labels :=
      List.intercalate_cons_of_ne_nil spells.named.filled
    rw [lowerCase] at same
    rw [tail,lowerCase,List.map_append,List.map_cons,same,dot]
    simp [dotted,lowerCase]

theorem Named.spells (named : Named labels) : Spells (joined labels) labels where
  named := named
  ascii := named.ascii
  text := by
    refine ⟨0,Nat.zero_le 1,?_⟩
    have stays := lowerCase_lowers.stays named.ascii fun c member => (named.chars c member).2
    rw [stays,dotted,List.replicate_zero,List.append_nil]

variable {toLowerCase : Text → Text} (lowers : Lowers toLowerCase) {labels : List Text} (spells : Spells host labels)
include spells

theorem Spells.filled : host ≠ [] := by
  obtain ⟨k,-,same⟩ := spells.text
  intro empty
  rw [empty,dotted] at same
  exact spells.named.text_filled (List.append_eq_nil_iff.mp same.symm).1

include lowers

theorem Spells.normalized : withoutDots (toLowerCase host) = joined labels := by
  obtain ⟨k,-,same⟩ := spells.text
  rw [lowers.ascii host spells.ascii,same,dotted_bare spells.named.bare]

-- The table holds no suffix of three labels.
omit spells lowers in
theorem Named.three (named : Named labels) (many : 3 ≤ labels.length) : lastParts 3 labels ∉ MULTI_PART_SUFFIXES := by
  intro member
  have few := (listed_suffix (List.mem_append_right _ member)).few
  have size := lastLabels_length 3 labels
  have some_ : lastLabels 3 labels ≠ [] := by
    apply List.ne_nil_of_length_pos
    omega
  rw [show lastParts 3 labels = joined (lastLabels 3 labels) from rfl,(named.suffix (lastLabels_suffix 3 labels) some_).split] at few
  omega

omit spells lowers in
theorem lastLabels_one (filled : labels ≠ []) : lastLabels 1 labels = [labels.getLastD []] := by
  obtain ⟨front,last,rfl⟩ := List.eq_nil_or_concat labels |>.resolve_left filled
  simp [lastLabels]

theorem Spells.suffix : getPublicSuffix toLowerCase host = some (joined (suffixLabels labels)) := by
  have some_ := List.length_pos_of_ne_nil spells.named.filled
  unfold getPublicSuffix suffixLabels
  rw [if_neg spells.filled,spells.normalized lowers]
  dsimp only
  rw [spells.named.split,if_neg (by omega : ¬labels.length = 0)]
  by_cases two : 2 ≤ labels.length ∧ lastParts 2 labels ∈ MULTI_PART_SUFFIXES
  · rw [if_pos two,if_pos two]
    rfl
  · have three : ¬(3 ≤ labels.length ∧ lastParts 3 labels ∈ MULTI_PART_SUFFIXES) := fun both => spells.named.three both.1 both.2
    have last : isValidLabel (labels.getLastD []) = true := by
      apply spells.named.valid
      apply (lastLabels_suffix 1 labels).subset
      rw [lastLabels_one spells.named.filled]
      exact List.mem_cons_self
    rw [if_neg two,if_neg two,if_neg three,lastLabels_one spells.named.filled,last]
    simp [joined]

theorem Spells.domain : getDomain toLowerCase host =
    if isIP (joined labels) then none
    else if labels.length ≤ (suffixLabels labels).length then none else some (joined (domainLabels labels)) := by
  have suffix := spells.named.suffix (suffixLabels_suffix labels) (List.ne_nil_of_length_pos (suffixLabels_length spells.named.filled).1)
  unfold getDomain
  rw [if_neg spells.filled,spells.normalized lowers]
  dsimp only
  rw [spells.named.spells.suffix lowers]
  split
  · rfl
  · split
    · next none_ => cases none_
    · next empty => exact absurd (Option.some.inj empty) suffix.text_filled
    · next found =>
      obtain rfl := Option.some.inj found
      rw [suffix.split,spells.named.split]
      rfl

theorem Spells.isIp : (parse toLowerCase host).isIp = isIP (joined labels) := by
  obtain ⟨k,few,same⟩ := spells.text
  have chars : ∀ c ∈ joined labels, isLabelChar c = true ∨ c = '.' := fun c member => (spells.named.chars c member).1
  have none_ : k-1 = 0 := by omega
  unfold parse
  rw [if_neg spells.filled,lowers.ascii host spells.ascii,same]
  dsimp only
  rw [dotted_trimmed chars,dotted_shorter spells.named.bare,none_,dotted,List.replicate_zero,List.append_nil]
  split
  · next address => exact address.symm
  · next other =>
    split
    · simpa using other
    · simpa using other

theorem Spells.domain_named (other : isIP (joined labels) = false) : getDomain toLowerCase host =
    if labels.length ≤ (suffixLabels labels).length then none else some (joined (domainLabels labels)) := by
  rw [spells.domain lowers,if_neg (Bool.eq_false_iff.mp other)]

-- A name below the domain has the same one.
theorem Spells.domain_below (other : isIP (joined labels) = false) (valid : isValidLabel label = true)
    (below : isIP (joined (lowerCase label :: labels)) = false) (found : getDomain toLowerCase host ≠ none) :
    getDomain toLowerCase (label ++ '.' :: host) = getDomain toLowerCase host := by
  rw [spells.domain_named lowers other] at found ⊢
  rw [(spells.cons valid).domain_named lowers below]
  by_cases few : labels.length ≤ (suffixLabels labels).length
  · exact absurd (if_pos few) found
  · obtain ⟨suffix,domain⟩ := domainLabels_cons (lowerCase label) (by omega : (suffixLabels labels).length < labels.length)
    rw [suffix,domain,if_neg few,if_neg (by simp only [List.length_cons]; omega)]

theorem Spells.domain_again (other : isIP (joined labels) = false) :
    (getDomain toLowerCase host).bind (getDomain toLowerCase) = getDomain toLowerCase host := by
  rw [spells.domain_named lowers other]
  by_cases few : labels.length ≤ (suffixLabels labels).length
  · rw [if_pos few]
    rfl
  · have more : (suffixLabels labels).length < labels.length := by omega
    have size := domainLabels_length more
    have bounds := suffixLabels_length spells.named.filled
    have named := spells.named.suffix (domainLabels_suffix labels) (List.ne_nil_of_length_pos (by omega))
    have again := named.spells.domain_named lowers (named.unnumbered (by omega))
    rw [suffix_of_domain more,domainLabels_self more,if_neg (by omega)] at again
    rw [if_neg few]
    exact again

theorem Spells.domain_bare (other : isIP (joined labels) = false) :
    getDomain toLowerCase host = none ↔ joined labels = joined (suffixLabels labels) := by
  have suffix := spells.named.suffix (suffixLabels_suffix labels) (List.ne_nil_of_length_pos (suffixLabels_length spells.named.filled).1)
  rw [spells.domain_named lowers other]
  constructor
  · intro none_
    by_cases few : labels.length ≤ (suffixLabels labels).length
    · exact congrArg joined ((suffixLabels_whole labels).mp few)
    · rw [if_neg few] at none_
      cases none_
  · intro same
    have whole := congrArg (List.splitOn '.') same
    rw [spells.named.split,suffix.split] at whole
    exact if_pos ((suffixLabels_whole labels).mpr whole)

theorem Spells.domain_labels (other : isIP (joined labels) = false) (found : getDomain toLowerCase host = some registrable) :
    registrable.splitOn '.' = domainLabels labels ∧ (domainLabels labels).length = (suffixLabels labels).length+1 := by
  rw [spells.domain_named lowers other] at found
  by_cases few : labels.length ≤ (suffixLabels labels).length
  · rw [if_pos few] at found
    cases found
  · rw [if_neg few] at found
    obtain rfl := Option.some.inj found
    have size := domainLabels_length (by omega : (suffixLabels labels).length < labels.length)
    have shape := spells.named.suffix (domainLabels_suffix labels) (List.ne_nil_of_length_pos (by omega))
    exact ⟨shape.split,size⟩

end Spelling

-- Whether a hostname is an address is what parse says, which drops one dot.
theorem suffixes_coherent (lowers : Lowers toLowerCase) (valid : isValidHostname host = true)
    (other : (parse toLowerCase host).isIp = false) : ∃ suffix, Coherent toLowerCase host suffix := by
  obtain ⟨labels,spells⟩ := valid_spells valid
  rw [spells.isIp lowers] at other
  have named := spells.named
  have suffix := named.suffix (suffixLabels_suffix labels) (List.ne_nil_of_length_pos (suffixLabels_length named.filled).1)
  have normalized := spells.normalized lowers
  refine ⟨joined (suffixLabels labels),spells.suffix lowers,?_,?_,?_,?_,spells.domain_again lowers other,?_⟩
  · rw [Aligned,normalized,suffix.split,named.split]
    exact suffixLabels_suffix labels
  · rw [suffix.spells.suffix lowers,suffixLabels_self named.filled]
  · rw [normalized]
    exact spells.domain_bare lowers other
  · intro domain found
    obtain ⟨own,size⟩ := spells.domain_labels lowers other found
    rw [Aligned,normalized,own,named.split,suffix.split]
    exact ⟨domainLabels_suffix labels,size⟩
  · intro label own below
    rw [(spells.cons own).isIp lowers] at below
    exact spells.domain_below lowers other own below

theorem capitals_coherent : ∃ suffix, Coherent lowerCase "WWW.Example.co.uk.".toList suffix :=
  suffixes_coherent lowerCase_lowers (by decide +kernel) (by decide +kernel)

example : getDomain lowerCase "WWW.Example.co.uk.".toList = some "example.co.uk".toList := by decide +kernel

end AdblockCompiler.TldUtils
