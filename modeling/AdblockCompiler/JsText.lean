import Mathlib

namespace JsText

-- A JavaScript string as its characters in order. Lists keep every operation
-- below structural, so that a closed run is decided by evaluation.
abbrev Text := List Char

instance : LawfulBEq Text := inferInstance

-- A thrown Error, as its message.
abbrev Thrown := Text

-- White space and line terminators as String.prototype.trim and the regular
-- expression class `\s` take them.
def isSpace (c : Char) : Bool :=
  let n := c.toNat
  (9 ≤ n && n ≤ 13) || n == 0x20 || n == 0xA0 || n == 0x1680 || (0x2000 ≤ n && n ≤ 0x200A) ||
    n == 0x2028 || n == 0x2029 || n == 0x202F || n == 0x205F || n == 0x3000 || n == 0xFEFF

def AllSpace (text : Text) : Prop := ∀ c ∈ text, isSpace c = true

def trimStart (text : Text) : Text := text.dropWhile isSpace
def trimEnd (text : Text) : Text := text.rdropWhile isSpace
def trim (text : Text) : Text := trimEnd (trimStart text)

def startsWith (text first : Text) : Bool := first.isPrefixOf text
def endsWith (text last : Text) : Bool := last.isSuffixOf text

theorem startsWith_iff : startsWith text first = true ↔ ∃ rest, text = first ++ rest := by
  simp only [startsWith,List.isPrefixOf_iff_prefix]
  constructor
  · rintro ⟨rest,rfl⟩; exact ⟨rest,rfl⟩
  · rintro ⟨rest,rfl⟩; exact ⟨rest,rfl⟩

@[simp] theorem startsWith_append (first rest : Text) : startsWith (first ++ rest) first = true :=
  startsWith_iff.mpr ⟨rest,rfl⟩

section Joining
variable {α : Type} {mark : α} {parts : List (List α)}

theorem join_cons (more : parts ≠ []) (first : List α) : [mark].intercalate (first :: parts) = first ++ mark :: [mark].intercalate parts := by
  rw [List.intercalate_cons_of_ne_nil more,List.append_assoc,List.singleton_append]

theorem join_append {first : List (List α)} (some_ : first ≠ []) (more : parts ≠ []) :
    [mark].intercalate (first ++ parts) = [mark].intercalate first ++ mark :: [mark].intercalate parts := by
  induction first with
  | nil => exact absurd rfl some_
  | cons part rest ih =>
    cases rest with
    | nil => rw [List.singleton_append,join_cons more,List.intercalate_singleton]
    | cons next rest =>
      have filled : next :: rest ≠ [] := List.cons_ne_nil next rest
      rw [List.cons_append,join_cons (List.append_ne_nil_of_left_ne_nil filled parts),ih filled,join_cons filled,List.append_assoc,List.cons_append]

theorem splitOnP_join (p : α → Bool) (separates : p mark = true) (some_ : parts ≠ []) :
    ([mark].intercalate parts).splitOnP p = parts.flatMap (List.splitOnP p) := by
  induction parts with
  | nil => exact absurd rfl some_
  | cons part rest ih =>
    cases rest with
    | nil => rw [List.intercalate_singleton,List.flatMap_singleton]
    | cons next rest =>
      have more : next :: rest ≠ [] := List.cons_ne_nil next rest
      rw [join_cons more,List.splitOnP_append_cons _ _ separates,ih more]
      rfl

theorem splitOn_join [BEq α] [LawfulBEq α] (some_ : parts ≠ []) : ([mark].intercalate parts).splitOn mark = parts.flatMap (List.splitOn mark) :=
  splitOnP_join (· == mark) (BEq.refl mark) some_

theorem mem_splitOnP {p : α → Bool} {text : List α} (member : part ∈ text.splitOnP p) : ∀ c ∈ part, p c = false := by
  induction text generalizing part with
  | nil =>
    obtain rfl := List.mem_singleton.mp member
    intro c inside
    cases inside
  | cons c text ih =>
    obtain ⟨first,rest,shape⟩ := List.exists_cons_of_ne_nil (List.splitOnP_ne_nil p text)
    rw [shape] at ih
    rw [List.splitOnP_cons_eq_if_modifyHead,shape] at member
    cases separates : p c with
    | true =>
      rw [if_pos separates] at member
      rcases List.mem_cons.mp member with rfl | later
      · intro d inside
        cases inside
      · exact ih later
    | false =>
      rw [if_neg (by simp [separates]),List.modifyHead_cons] at member
      rcases List.mem_cons.mp member with rfl | later
      · exact List.forall_mem_cons.mpr ⟨separates,ih List.mem_cons_self⟩
      · exact ih (List.mem_cons_of_mem first later)

theorem mark_unique {left right first second : List α} (one : mark ∉ left) (two : mark ∉ right)
    (same : left ++ mark :: first = right ++ mark :: second) : left = right ∧ first = second := by
  induction left generalizing right with
  | nil =>
    cases right with
    | nil => exact ⟨rfl,(List.cons.inj same).2⟩
    | cons c rest => exact absurd List.mem_cons_self ((List.cons.inj same).1 ▸ two)
  | cons c rest ih =>
    cases right with
    | nil => exact absurd List.mem_cons_self ((List.cons.inj same).1 ▸ one)
    | cons d more =>
      obtain ⟨rfl,tails⟩ := List.cons.inj same
      obtain ⟨lefts,ends⟩ := ih (fun member => one (List.mem_cons_of_mem c member)) (fun member => two (List.mem_cons_of_mem c member)) tails
      exact ⟨congrArg (c :: ·) lefts,ends⟩

theorem mem_join (member : c ∈ [mark].intercalate parts) : c = mark ∨ ∃ part ∈ parts, c ∈ part := by
  induction parts with
  | nil => cases member
  | cons part rest ih =>
    cases rest with
    | nil => exact .inr ⟨part,List.mem_cons_self,by simpa using member⟩
    | cons next rest =>
      rw [join_cons (List.cons_ne_nil next rest),List.mem_append,List.mem_cons] at member
      rcases member with own | same | later
      · exact .inr ⟨part,List.mem_cons_self,own⟩
      · exact .inl same
      · rcases ih later with same | ⟨other,inside,own⟩
        · exact .inl same
        · exact .inr ⟨other,List.mem_cons_of_mem part inside,own⟩

end Joining

-- Decided along the text, not over every character there is.
theorem every_char {p : Char → Prop} [DecidablePred p] {text : Text} (all : (text.all fun c => decide (p c)) = true) :
    ∀ c ∈ text, p c := by
  intro c member
  exact of_decide_eq_true (List.all_eq_true.mp all c member)

theorem allSpace_nil : AllSpace [] := fun _ member => by cases member

theorem allSpace_append : AllSpace (left ++ right) ↔ AllSpace left ∧ AllSpace right := by
  simp only [AllSpace,List.mem_append]
  constructor
  · intro all; exact ⟨fun c member => all c (.inl member),fun c member => all c (.inr member)⟩
  · rintro ⟨one,two⟩ c (member | member)
    · exact one c member
    · exact two c member

theorem trimStart_space (space : AllSpace left) (text : Text) : trimStart (left ++ text) = trimStart text := by
  induction left with
  | nil => rfl
  | cons c rest ih =>
    have head : isSpace c = true := space c (by simp)
    have tail : AllSpace rest := fun d member => space d (by simp [member])
    simpa [trimStart,head] using ih tail

theorem trimEnd_space (space : AllSpace right) (text : Text) : trimEnd (text ++ right) = trimEnd text := by
  have reversed : AllSpace right.reverse := fun c member => space c (List.mem_reverse.mp member)
  simpa [trimEnd,List.rdropWhile,trimStart] using congrArg List.reverse (trimStart_space reversed text.reverse)

def Trimmed (text : Text) : Prop :=
  (∀ c rest, text = c :: rest → isSpace c = false) ∧ (∀ c rest, text = rest ++ [c] → isSpace c = false)

theorem trimmed_ends (front : (text.head?.all fun c => !isSpace c) = true)
    (back : (text.getLast?.all fun c => !isSpace c) = true) : Trimmed text := by
  constructor
  · rintro c rest rfl; simpa using front
  · rintro c rest rfl; simpa using back

theorem trimStart_trimmed (front : ∀ c rest, text = c :: rest → isSpace c = false) :
    trimStart text = text := by
  cases text with
  | nil => rfl
  | cons c rest => simp [trimStart,front c rest rfl]

theorem trimEnd_trimmed (back : ∀ c rest, text = rest ++ [c] → isSpace c = false) :
    trimEnd text = text := by
  induction text using List.reverseRecOn with
  | nil => rfl
  | append_singleton rest c _ => simp [trimEnd,back c rest rfl]

theorem trim_trimmed (done : Trimmed text) : trim text = text := by
  rw [trim,trimStart_trimmed done.1,trimEnd_trimmed done.2]

theorem trimStart_front (same : trimStart text = c :: rest) : isSpace c = false := by
  induction text with
  | nil => simp [trimStart] at same
  | cons d tail ih =>
    by_cases blank : isSpace d = true
    · exact ih (by simpa [trimStart,blank] using same)
    · simp only [trimStart,List.dropWhile_cons,blank,Bool.false_eq_true,if_false,List.cons.injEq] at same
      obtain ⟨rfl,-⟩ := same
      simpa using blank

theorem trimEnd_back (same : trimEnd text = rest ++ [c]) : isSpace c = false := by
  have reversed : trimStart text.reverse = c :: rest.reverse := by
    have := congrArg List.reverse same
    simpa [trimEnd,List.rdropWhile,trimStart] using this
  exact trimStart_front reversed

theorem trimEnd_front (front : ∀ c rest, text = c :: rest → isSpace c = false)
    (same : trimEnd text = c :: rest) : isSpace c = false := by
  obtain ⟨tail,whole⟩ : trimEnd text <+: text := List.rdropWhile_prefix isSpace _
  rw [same] at whole
  exact front c (rest ++ tail) whole.symm

theorem trimmed_trim (text : Text) : Trimmed (trim text) :=
  ⟨fun _ _ same => trimEnd_front (fun _ _ start => trimStart_front start) same,
    fun _ _ same => trimEnd_back same⟩

@[simp] theorem trim_trim (text : Text) : trim (trim text) = trim text := trim_trimmed (trimmed_trim text)

theorem trim_padded (left : AllSpace front) (right : AllSpace back) (text : Text) :
    trim (front ++ text ++ back) = trim text := by
  rw [trim,List.append_assoc,trimStart_space left,trim]
  by_cases blank : AllSpace text
  · have whole : AllSpace (text ++ back) := allSpace_append.mpr ⟨blank,right⟩
    have one := trimStart_space whole []
    have two := trimStart_space blank []
    simp only [List.append_nil] at one two
    rw [one,two]
  · have keeps : trimStart (text ++ back) = trimStart text ++ back := by
      have stops : trimStart text ≠ [] := by
        intro empty
        exact blank (List.dropWhile_eq_nil_iff.mp empty)
      rw [trimStart,List.dropWhile_append]
      simp [trimStart] at stops
      simpa [trimStart] using fun all => absurd all (by simpa using stops)
    rw [keeps,trimEnd_space right]

theorem trimEnd_append (back : ∀ c rest, word = rest ++ [c] → isSpace c = false) :
    trimEnd (word ++ tail) = word ++ trimEnd tail := by
  have word_done := trimEnd_trimmed back
  by_cases blank : AllSpace tail
  · have none := trimEnd_space blank []
    rw [List.nil_append] at none
    rw [trimEnd_space blank,word_done,none]
    simp [trimEnd]
  · have stops : (tail.reverse.dropWhile isSpace).isEmpty = false := by
      cases left : tail.reverse.dropWhile isSpace with
      | nil =>
        have all := List.dropWhile_eq_nil_iff.mp left
        exact absurd (fun c member => all c (List.mem_reverse.mpr member)) blank
      | cons => rfl
    simp [trimEnd,List.rdropWhile,List.dropWhile_append,stops]

-- A leading word with no blank at its ends survives trimming whole, and what
-- follows it is trimmed on its own.
theorem trim_word (left : AllSpace front) (done : Trimmed word) (some : word ≠ []) (tail : Text) :
    trim (front ++ word ++ tail) = word ++ trimEnd tail := by
  have starts : trimStart (word ++ tail) = word ++ tail := by
    apply trimStart_trimmed
    intro c rest same
    cases word with
    | nil => exact absurd rfl some
    | cons d more => obtain ⟨rfl,-⟩ := List.cons.inj same; exact done.1 d more rfl
  rw [trim,List.append_assoc,trimStart_space left,starts,trimEnd_append done.2]

theorem trim_trimEnd (text : Text) : trim (trimEnd text) = trim text := by
  have tail : AllSpace (text.rtakeWhile isSpace) := fun c member => List.mem_rtakeWhile_imp member
  have padded := trim_padded allSpace_nil tail (trimEnd text)
  rw [List.nil_append] at padded
  rw [← padded]
  congr 1
  exact List.rdropWhile_append_rtakeWhile

-- String.prototype.split(/\r?\n/): pieces end at each line feed, and one
-- carriage return before the feed belongs to the separator.
def splitLinesFrom : Text → Text → List Text
  | piece,[] => [piece.reverse]
  | piece,'\n' :: rest =>
    (match piece with | '\r' :: before => before.reverse | _ => piece.reverse) :: splitLinesFrom [] rest
  | piece,c :: rest => splitLinesFrom (c :: piece) rest

def splitLines (text : Text) : List Text := splitLinesFrom [] text

example : splitLines "a\r\nb\n".toList = ["a".toList,"b".toList,[]] := by decide

-- The regular expression class `\w`.
def isWordChar (c : Char) : Bool := c.isAlphanum || c == '_'
def isWordStart (c : Char) : Bool := c.isAlpha || c == '_'

theorem wordChar_not_space (letter : isWordChar c = true) : isSpace c = false := by
  simp only [isWordChar,Char.isAlphanum,Char.isAlpha,Char.isUpper,Char.isLower,Char.isDigit,Bool.or_eq_true,
    Bool.and_eq_true,decide_eq_true_eq,beq_iff_eq] at letter
  have number : (48 ≤ c.toNat ∧ c.toNat ≤ 57) ∨ (65 ≤ c.toNat ∧ c.toNat ≤ 90) ∨ c.toNat = 95 ∨
      (97 ≤ c.toNat ∧ c.toNat ≤ 122) := by
    rcases letter with ((⟨one,two⟩ | ⟨one,two⟩) | ⟨one,two⟩) | same
    · exact .inr (.inl ⟨one,two⟩)
    · exact .inr (.inr (.inr ⟨one,two⟩))
    · exact .inl ⟨one,two⟩
    · subst same; exact .inr (.inr (.inl rfl))
  simp only [isSpace,Bool.or_eq_false_iff,Bool.and_eq_false_iff,decide_eq_false_iff_not,beq_eq_false_iff_ne]
  refine ⟨⟨⟨⟨⟨⟨⟨⟨⟨⟨?_,?_⟩,?_⟩,?_⟩,?_⟩,?_⟩,?_⟩,?_⟩,?_⟩,?_⟩,?_⟩
  all_goals omega

def lowerCase (text : Text) : Text := text.map Char.toLower

-- String.prototype.replace with a global expression. A matcher sees the
-- character before the position and the text from it on, and gives the length
-- of the match that starts there; matches are taken leftmost first and do not
-- overlap. The counter is what is left of the match being replaced.
abbrev Matcher := Option Char → Text → Option Nat

def replaceFrom (matcher : Matcher) (value : Text) : Nat → Option Char → Text → Text
  | _,_,[] => []
  | skip+1,_,c :: rest => replaceFrom matcher value skip (some c) rest
  | 0,prev,c :: rest =>
    match matcher prev (c :: rest) with
    | some (length+1) => value ++ replaceFrom matcher value length (some c) rest
    | _ => c :: replaceFrom matcher value 0 (some c) rest

def replaceAll (matcher : Matcher) (value text : Text) : Text := replaceFrom matcher value 0 none text

-- The matcher of /\bword\b/gi for a word of word characters.
def wholeWord (word : Text) : Matcher := fun prev text =>
  if !prev.any isWordChar && startsWith (lowerCase text) word && !((text.drop word.length).head?.any isWordChar) then
    some word.length
  else none

-- The matcher of /first|second/gi.
def eitherWord (first second : Text) : Matcher := fun _ text =>
  if startsWith (lowerCase text) first then some first.length
  else if startsWith (lowerCase text) second then some second.length
  else none

-- The matcher of /\s+operator\s+/g.
def spacedOperator (operator : Text) : Matcher := fun _ text =>
  let spaces := text.takeWhile isSpace
  let after := text.dropWhile isSpace
  let more := (after.drop operator.length).takeWhile isSpace
  if spaces ≠ [] ∧ startsWith after operator ∧ more ≠ [] then some (spaces.length+operator.length+more.length) else none

example : replaceAll (wholeWord "mac".toList) "x".toList "mac ext_mac MAC(mac)".toList = "x ext_mac x(x)".toList := by
  decide

end JsText
