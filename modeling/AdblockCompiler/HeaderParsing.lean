import AdblockCompiler.Header
import AdblockCompiler.TldUtils

namespace AdblockCompiler.Header
open JsText Config TldUtils

-- What . matches in an expression without the flag s.
def isLineTerminator (c : Char) : Bool := c == '\n' || c == '\r' || c == '\u2028' || c == '\u2029'

-- The ways in which a greedy run of at most n characters of a text is tried,
-- and those of a run of the characters of a class.
def runs (least n : Nat) (text : Text) : List (Text × Text) :=
  (List.range' least (n+1-least)).reverse.map fun i => (text.take i,text.drop i)

def greedy (least : Nat) (p : Char → Bool) (text : Text) : List (Text × Text) := runs least (text.takeWhile p).length text

-- /^!\s*([^:]+):\s*(.+)$/, by its two ends.
def atEnd (value : Text × Text) : Option Text := if value.2 = [] then some value.1 else none

def matchValue (text : Text) : Option Text :=
  (greedy 0 isSpace text).findSome? fun blanks => (greedy 1 (fun c => !isLineTerminator c) blanks.2).findSome? atEnd

def matchField (line : Text) : Option (Text × Text) :=
  if startsWith line ['!'] then
    (greedy 0 isSpace (line.drop 1)).findSome? fun blanks =>
      (greedy 1 (fun c => c ≠ ':') blanks.2).findSome? fun key =>
        if startsWith key.2 [':'] then (matchValue (key.2.drop 1)).map fun value => (key.1,value) else none
  else none

abbrev Metadata := List (Text × Text)

-- An assignment to __proto__ of a text changes nothing.
def Metadata.set (metadata : Metadata) (key value : Text) : Metadata :=
  if key = "__proto__".toList then metadata
  else if metadata.any (·.1 = key) then metadata.map fun row => if row.1 = key then (key,value) else row
  else metadata ++ [(key,value)]

section Parser
variable (toLowerCase : Text → Text)

def field (line : Text) : Option (Text × Text) := (matchField line).map fun found => (toLowerCase (trim found.1),trim found.2)

def readLines (metadata : Metadata) : List Text → Metadata
  | [] => metadata
  | line :: rest =>
    if startsWith line ['!'] = false then metadata
    else readLines ((field toLowerCase line).elim metadata fun found => metadata.set found.1 found.2) rest

def parseHeader (lines : List Text) : Metadata := readLines toLowerCase [] lines

end Parser

section Matching

theorem runs_succ (fits : least ≤ n+1) (text : Text) :
    runs least (n+1) text = (text.take (n+1),text.drop (n+1)) :: runs least n text := by
  have more : n+1+1-least = n+1-least+1 := by omega
  have last : least+1*(n+1-least) = n+1 := by omega
  rw [runs,more,List.range'_concat,List.reverse_append,List.map_append,last]
  rfl

theorem runs_parts (member : parts ∈ runs least n text) : ∃ i, parts.2 = text.drop i := by
  obtain ⟨i,-,rfl⟩ := List.mem_map.mp member
  exact ⟨i,rfl⟩

theorem runs_head (fits : least ≤ n) (text : Text) : ∃ others, runs least n text = (text.take n,text.drop n) :: others := by
  cases n with
  | zero =>
    obtain rfl := Nat.le_zero.mp fits
    exact ⟨[],rfl⟩
  | succ n => exact ⟨_,runs_succ fits text⟩

theorem greedy_first (least : Nat) (front back : Text) (all : ∀ c ∈ front, p c = true) (stop : ∀ c rest, back = c :: rest → p c = false) (fits : least ≤ front.length) :
    ∃ others, greedy least p (front ++ back) = (front,back) :: others := by
  have run : (front ++ back).takeWhile p = front := by
    rw [List.takeWhile_append_of_pos all]
    cases back with
    | nil => simp
    | cons c rest => rw [List.takeWhile_cons_of_neg (by rw [stop c rest rfl]; decide),List.append_nil]
  obtain ⟨others,first⟩ := runs_head fits (front ++ back)
  refine ⟨others,?_⟩
  rw [greedy,run,first,List.take_left,List.drop_left]

theorem value_all (text : Text) (single : ∀ c ∈ text, isLineTerminator c = false) (filled : text ≠ []) :
    (greedy 1 (fun c => !isLineTerminator c) text).findSome? atEnd = some text := by
  obtain ⟨others,first⟩ := greedy_first (p := fun c => !isLineTerminator c) 1 text []
    (fun c member => by rw [single c member]; rfl) (fun _ _ none => nomatch none) (List.length_pos_of_ne_nil filled)
  rw [List.append_nil] at first
  rw [first]
  rfl

-- A value of blanks only is found by giving one of them back.
theorem value_blank (single : ∀ c ∈ text, isLineTerminator c = false) (filled : text ≠ []) (blank : AllSpace text) :
    ∃ c, isSpace c = true ∧ matchValue text = some [c] := by
  obtain ⟨front,c,rfl⟩ := (List.eq_nil_or_concat' text).resolve_left filled
  have run : (front ++ [c]).takeWhile isSpace = front ++ [c] := List.takeWhile_eq_self_iff.mpr blank
  have size : (front ++ [c]).length = front.length+1 := by simp
  obtain ⟨others,second⟩ := runs_head (Nat.zero_le front.length) (front ++ [c])
  have last := value_all [c] (fun d member => single d (List.mem_append_right _ member)) (List.cons_ne_nil _ _)
  refine ⟨c,blank c (by simp),?_⟩
  unfold matchValue
  rw [greedy,run,size,runs_succ (Nat.zero_le _),second,← size,List.take_length,List.drop_length,List.take_left,List.drop_left]
  have nothing : greedy 1 (fun c => !isLineTerminator c) [] = [] := rfl
  simp only [List.findSome?_cons,nothing,List.findSome?_nil,last]

-- What the expression finds behind the colon has the text of the value and
-- perhaps a blank.
theorem value_found (single : ∀ c ∈ text, isLineTerminator c = false) (filled : text ≠ []) :
    ∃ value, matchValue text = some value ∧ trim value = trim text := by
  have whole : text.takeWhile isSpace ++ trimStart text = text := List.takeWhile_append_dropWhile
  have blank : AllSpace (text.takeWhile isSpace) := fun c member => List.mem_takeWhile_imp member
  by_cases rest : trimStart text = []
  · have all : AllSpace text := by
      rw [rest,List.append_nil] at whole
      rw [← whole]
      exact blank
    obtain ⟨c,space,found⟩ := value_blank single filled all
    refine ⟨[c],found,?_⟩
    have empty : trim [c] = [] := by simp [trim,trimStart,trimEnd,space]
    rw [empty,trim,rest]
    rfl
  · obtain ⟨others,first⟩ := greedy_first (p := isSpace) 0 _ _ blank (fun c tail same => trimStart_front same) (Nat.zero_le _)
    have inside : ∀ c ∈ trimStart text, isLineTerminator c = false := fun c member =>
      single c ((List.dropWhile_suffix isSpace).subset member)
    have found := value_all _ inside rest
    rw [whole] at first
    refine ⟨trimStart text,?_,?_⟩
    · unfold matchValue
      rw [first]
      simp only [List.findSome?_cons,found]
    · have padded := trim_padded blank allSpace_nil (trimStart text)
      rw [List.append_nil,whole] at padded
      exact padded.symm

-- A label in front of a value is found as it is written.
theorem field_found (colon : ':' ∉ label) (front : ∀ c rest, label = c :: rest → isSpace c = false) (labelled : label ≠ [])
    (single : ∀ c ∈ text, isLineTerminator c = false) :
    ∃ value, matchField ("! ".toList ++ label ++ ": ".toList ++ text) = some (label,value) ∧ trim value = trim text := by
  have shape : "! ".toList ++ label ++ ": ".toList ++ text = '!' :: ([' '] ++ (label ++ ':' :: ' ' :: text)) := by simp
  have behind : ∀ c ∈ ' ' :: text, isLineTerminator c = false := by
    intro c member
    rcases List.mem_cons.mp member with rfl | inside
    · rfl
    · exact single c inside
  obtain ⟨value,found,same⟩ := value_found behind (List.cons_ne_nil _ _)
  obtain ⟨ways,blanks⟩ := greedy_first (p := isSpace) 0 [' '] (label ++ ':' :: ' ' :: text)
    (by simp [isSpace]) (fun c rest starts => by
      cases label with
      | nil => exact absurd rfl labelled
      | cons d more => exact (List.cons.inj starts).1 ▸ front d more rfl) (Nat.zero_le _)
  obtain ⟨others,keys⟩ := greedy_first (p := fun c => decide (c ≠ ':')) 1 label (':' :: ' ' :: text)
    (fun c member => decide_eq_true fun equal => colon (equal ▸ member))
    (fun c rest starts => by rw [← (List.cons.inj starts).1]; rfl) (List.length_pos_of_ne_nil labelled)
  have starts : startsWith (':' :: ' ' :: text) [':'] = true := startsWith_iff.mpr ⟨_,rfl⟩
  refine ⟨value,?_,?_⟩
  · have bang : startsWith ('!' :: ([' '] ++ (label ++ ':' :: ' ' :: text))) ['!'] = true := startsWith_iff.mpr ⟨_,rfl⟩
    rw [shape,matchField,if_pos bang,List.drop_one,List.tail_cons,blanks]
    simp only [List.findSome?_cons,keys,starts,if_true,List.drop_one,List.tail_cons,found,Option.map_some]
  · rw [same]
    have blank : AllSpace [' '] := every_char (by decide)
    have padded := trim_padded blank allSpace_nil text
    rwa [List.append_nil] at padded

theorem field_unmarked (colon : ':' ∉ line) : matchField line = none := by
  unfold matchField
  split
  · apply List.findSome?_eq_none_iff.mpr
    intro blanks taken
    apply List.findSome?_eq_none_iff.mpr
    intro key member
    apply if_neg
    intro starts
    obtain ⟨i,same⟩ := runs_parts taken
    obtain ⟨j,behind⟩ := runs_parts member
    obtain ⟨rest,found⟩ := startsWith_iff.mp starts
    have inside : ':' ∈ ((line.drop 1).drop i).drop j := by
      rw [← same,← behind,found]
      exact List.mem_cons_self
    exact colon (List.mem_of_mem_drop (List.mem_of_mem_drop (List.mem_of_mem_drop inside)))
  · rfl

end Matching

section Loop
variable (toLowerCase : Text → Text)

theorem readLines_all (metadata : Metadata) (lines : List Text) (comments : ∀ line ∈ lines, isComment line = true) :
    readLines toLowerCase metadata lines =
      (lines.filterMap (field toLowerCase)).foldl (fun metadata found => metadata.set found.1 found.2) metadata := by
  induction lines generalizing metadata with
  | nil => rfl
  | cons line rest ih =>
    obtain ⟨own,others⟩ := List.forall_mem_cons.mp comments
    have starts : ¬startsWith line ['!'] = false := by
      rw [show startsWith line ['!'] = true from own]
      decide
    rw [readLines,if_neg starts,ih _ others]
    cases found : field toLowerCase line with
    | none => rw [List.filterMap_cons_none found]; rfl
    | some pair => rw [List.filterMap_cons_some found]; rfl

-- Different keys are put in one after the other.
theorem set_all (entries metadata : Metadata) (distinct : ((metadata ++ entries).map Prod.fst).Nodup)
    (plain : ∀ entry ∈ entries, entry.1 ≠ "__proto__".toList) :
    entries.foldl (fun metadata found => metadata.set found.1 found.2) metadata = metadata ++ entries := by
  induction entries generalizing metadata with
  | nil => rw [List.append_nil]; rfl
  | cons entry rest ih =>
    obtain ⟨own,others⟩ := List.forall_mem_cons.mp plain
    have whole : metadata ++ entry :: rest = metadata ++ [entry] ++ rest := by rw [List.append_assoc,List.singleton_append]
    have fresh : metadata.any (fun row => decide (row.1 = entry.1)) = false := by
      apply List.any_eq_false.mpr
      intro row member same
      rw [List.map_append,List.nodup_append] at distinct
      exact distinct.2.2 row.1 (List.mem_map_of_mem member) entry.1 (by simp) (of_decide_eq_true same)
    have step : metadata.set entry.1 entry.2 = metadata ++ [entry] := by
      rw [Metadata.set,if_neg own,fresh,if_neg Bool.false_ne_true]
    rw [List.foldl_cons,step,whole]
    exact ih (metadata ++ [entry]) (whole ▸ distinct) others

end Loop

-- What is to be read of a configuration.
def given (field : Option Text) (key : Text) : Metadata :=
  match field with
  | none => []
  | some text => if text = [] then [] else [(key,trim text)]

def entries (timestamp : Date) (configuration : Configuration) : Metadata :=
  [("title".toList,trim configuration.name)] ++ given configuration.description "description".toList ++
    given configuration.version "version".toList ++ given configuration.homepage "homepage".toList ++
    given configuration.license "license".toList ++ [("last modified".toList,timestamp.toISOString)]

def SingleLine (text : Text) : Prop := ∀ c ∈ text, isLineTerminator c = false

structure SingleLines (configuration : Configuration) : Prop where
  name : SingleLine configuration.name
  description : ∀ text ∈ configuration.description, SingleLine text
  version : ∀ text ∈ configuration.version, SingleLine text
  homepage : ∀ text ∈ configuration.homepage, SingleLine text
  license : ∀ text ∈ configuration.license, SingleLine text

section RoundTrip
variable {toLowerCase : Text → Text} (lowers : Lowers toLowerCase)

-- The labels of the list header.
structure Labelled (label mark key : Text) : Prop where
  mark : mark = "! ".toList ++ label ++ ": ".toList
  colon : ':' ∉ label
  trimmed : Trimmed label
  filled : label ≠ []
  ascii : ∀ c ∈ label, c.toNat < 128
  key : lowerCase label = key

theorem title_labelled : Labelled "Title".toList "! Title: ".toList "title".toList :=
  ⟨by decide,by decide,trimmed_ends (by decide) (by decide),by decide,every_char (by decide),by decide⟩

theorem description_labelled : Labelled "Description".toList "! Description: ".toList "description".toList :=
  ⟨by decide,by decide,trimmed_ends (by decide) (by decide),by decide,every_char (by decide),by decide⟩

theorem version_labelled : Labelled "Version".toList "! Version: ".toList "version".toList :=
  ⟨by decide,by decide,trimmed_ends (by decide) (by decide),by decide,every_char (by decide),by decide⟩

theorem homepage_labelled : Labelled "Homepage".toList "! Homepage: ".toList "homepage".toList :=
  ⟨by decide,by decide,trimmed_ends (by decide) (by decide),by decide,every_char (by decide),by decide⟩

theorem license_labelled : Labelled "License".toList "! License: ".toList "license".toList :=
  ⟨by decide,by decide,trimmed_ends (by decide) (by decide),by decide,every_char (by decide),by decide⟩

theorem modified_labelled : Labelled "Last modified".toList "! Last modified: ".toList "last modified".toList :=
  ⟨by decide,by decide,trimmed_ends (by decide) (by decide),by decide,every_char (by decide),by decide⟩

theorem labelled_comment (labelled : Labelled label mark key) (text : Text) : isComment (mark ++ text) = true := by
  rw [labelled.mark]
  exact startsWith_iff.mpr ⟨_,rfl⟩

theorem given_comment (labelled : Labelled label mark key) (value : Option Text) : ∀ line ∈ whenGiven value mark, isComment line = true := by
  cases value with
  | none => exact fun _ none => nomatch none
  | some text =>
    unfold whenGiven
    dsimp only
    split
    · exact fun _ none => nomatch none
    · rw [List.forall_mem_singleton]
      exact labelled_comment labelled text

theorem list_comments (now : Date) (timestamp : Option Date) (configuration : Configuration) :
    ∀ line ∈ generateListHeader now configuration { timestamp := timestamp }, isComment line = true := by
  have bar : isComment "!".toList = true := by decide
  have compiled : isComment ("! Compiled by ".toList ++ PACKAGE_NAME ++ " v".toList ++ VERSION) = true := by decide
  unfold generateListHeader
  simp only [List.forall_mem_append,List.forall_mem_cons,bar,compiled,labelled_comment title_labelled,labelled_comment modified_labelled,
    Option.getD_none,List.map_nil,List.not_mem_nil,false_imp_iff,implies_true,and_true,true_and]
  exact ⟨⟨⟨given_comment description_labelled _,given_comment version_labelled _⟩,given_comment homepage_labelled _⟩,
    given_comment license_labelled _⟩

include lowers

theorem field_labelled (labelled : Labelled label mark key) (single : SingleLine text) :
    field toLowerCase (mark ++ text) = some (key,trim text) := by
  obtain ⟨value,found,same⟩ := field_found labelled.colon labelled.trimmed.1 labelled.filled single
  rw [field,labelled.mark,found,Option.map_some,same,trim_trimmed labelled.trimmed,lowers.ascii label labelled.ascii,labelled.key]

theorem field_given (labelled : Labelled label mark key) (single : ∀ text ∈ value, SingleLine text) :
    (whenGiven value mark).filterMap (field toLowerCase) = given value key := by
  cases value with
  | none => rfl
  | some text =>
    unfold whenGiven given
    dsimp only
    split
    · rfl
    · rw [List.filterMap_cons_some (field_labelled lowers labelled (single text rfl)),List.filterMap_nil]

end RoundTrip

theorem date_plain (d : Date) : ∀ c ∈ d.toISOString, isLineTerminator c = false ∧ isSpace c = false :=
  date_all (p := fun c => isLineTerminator c = false ∧ isSpace c = false) (by decide) (every_char (by decide)) d

theorem date_trimmed (d : Date) : trim d.toISOString = d.toISOString := by
  apply trim_trimmed
  constructor
  · intro c rest same
    exact (date_plain d c (by rw [same]; exact List.mem_cons_self)).2
  · intro c rest same
    exact (date_plain d c (by rw [same]; simp)).2

theorem given_keys (field : Option Text) (key : Text) : ((given field key).map Prod.fst).Sublist [key] := by
  cases field with
  | none => exact List.nil_sublist _
  | some text =>
    unfold given
    dsimp only
    split
    · exact List.nil_sublist _
    · exact List.Sublist.refl _

theorem entries_keys (timestamp : Date) (configuration : Configuration) :
    ((entries timestamp configuration).map Prod.fst).Sublist
      (["title","description","version","homepage","license","last modified"].map String.toList) := by
  simp only [entries,List.map_append]
  have whole := ((((List.Sublist.refl ["title".toList]).append (given_keys configuration.description "description".toList)).append
    (given_keys configuration.version "version".toList)).append (given_keys configuration.homepage "homepage".toList)).append
    (given_keys configuration.license "license".toList) |>.append (List.Sublist.refl ["last modified".toList])
  exact whole

-- The header of a list is read back as what was put into it.
theorem parse_header_exact (lowers : Lowers toLowerCase) (now : Date) (timestamp : Option Date) (configuration : Configuration)
    (single : SingleLines configuration) :
    parseHeader toLowerCase (generateListHeader now configuration { timestamp := timestamp }) =
      entries (timestamp.getD now) configuration := by
  have title := field_labelled lowers title_labelled single.name
  have modified := field_labelled lowers modified_labelled fun c member => (date_plain (timestamp.getD now) c member).1
  have bar : field toLowerCase "!".toList = none := by rw [field,field_unmarked (by decide)]; rfl
  have compiled : field toLowerCase ("! Compiled by ".toList ++ PACKAGE_NAME ++ " v".toList ++ VERSION) = none := by
    rw [field,field_unmarked (by decide)]
    rfl
  have found : (generateListHeader now configuration { timestamp := timestamp }).filterMap (field toLowerCase) =
      entries (timestamp.getD now) configuration := by
    unfold generateListHeader entries
    simp only [List.filterMap_append,List.filterMap_cons,List.filterMap_nil,bar,title,modified,compiled,
      field_given lowers description_labelled single.description,field_given lowers version_labelled single.version,
      field_given lowers homepage_labelled single.homepage,field_given lowers license_labelled single.license,date_trimmed,
      Option.getD_none,List.map_nil,List.append_nil]
  have keys := entries_keys (timestamp.getD now) configuration
  have plain : ∀ entry ∈ entries (timestamp.getD now) configuration, entry.1 ≠ "__proto__".toList := by
    intro entry member same
    have listed := keys.subset (List.mem_map_of_mem member)
    rw [same] at listed
    exact absurd listed (by decide)
  rw [parseHeader,readLines_all toLowerCase [] _ (list_comments now timestamp configuration),found]
  exact set_all _ [] ((by decide : List.Nodup _).sublist keys) plain

-- A homepage with colons, and a description that is blank.
theorem parse_header_example :
    parseHeader lowerCase (generateListHeader ⟨2025,1,2,3,4,5,6⟩
        { name := "! List: a".toList, description := some " ".toList, homepage := some "https://a.com:80/".toList
          sources := [] } {}) =
      entries ⟨2025,1,2,3,4,5,6⟩
        { name := "! List: a".toList, description := some " ".toList, homepage := some "https://a.com:80/".toList, sources := [] } := by
  apply parse_header_exact lowerCase_lowers ⟨2025,1,2,3,4,5,6⟩ none
  have none_ : ∀ text ∈ (none : Option Text), SingleLine text := fun _ member => nomatch member
  refine ⟨every_char (by decide),?_,none_,?_,none_⟩
  · intro text member
    obtain rfl := Option.mem_some_iff.mp member
    exact every_char (by decide)
  · intro text member
    obtain rfl := Option.mem_some_iff.mp member
    exact every_char (by decide)

end AdblockCompiler.Header
