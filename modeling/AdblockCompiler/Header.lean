import AdblockCompiler.JsText

namespace AdblockCompiler.Config
open JsText

inductive TransformationType where
  | RemoveComments | Compress | RemoveModifiers | Validate | ValidateAllowIp | Deduplicate | InvertAllow
  | RemoveEmptyLines | TrimLines | InsertFinalNewLine | ConvertToAscii | ConflictDetection | RuleOptimizer
  deriving DecidableEq, Repr

-- exclusions, inclusions and the files that hold more of them; none is an
-- absent property.
structure Filterable where
  exclusions : Option (List Text) := none
  exclusions_sources : Option (List Text) := none
  inclusions : Option (List Text) := none
  inclusions_sources : Option (List Text) := none
  deriving DecidableEq, Repr

structure Source extends Filterable where
  source : Text
  name : Option Text := none
  transformations : Option (List TransformationType) := none
  useBrowser : Option Bool := none
  deriving DecidableEq, Repr

structure Configuration extends Filterable where
  name : Text
  description : Option Text := none
  homepage : Option Text := none
  license : Option Text := none
  version : Option Text := none
  sources : List Source
  transformations : Option (List TransformationType) := none
  deriving DecidableEq, Repr

-- Compress asks for an earlier Deduplicate.
def hasValidTransformationOrdering (transformations : Option (List TransformationType)) : Bool :=
  match transformations with
  | none => true
  | some t =>
    match t.idxOf? .Compress with
    | none => true
    | some compressIndex =>
      match t.idxOf? .Deduplicate with
      | none => false
      | some deduplicateIndex => deduplicateIndex < compressIndex

-- The test of /^\d+\.\d+(\.\d+)?/, which is not anchored at its end.
def versionFormat (version : Text) : Bool :=
  match version.dropWhile Char.isDigit with
  | '.' :: c :: _ => version.head?.any Char.isDigit && c.isDigit
  | _ => false

-- What the zod schemas accept. isURL is whether the URL constructor takes a
-- text, url the check of z.string().url().
section Schemas
variable (isURL url : Text → Bool)

def SourceSchema.accepts (s : Source) : Bool :=
  let val := trim s.source
  (1 ≤ val.length && (isURL val || startsWith val ['/'] || startsWith val "./".toList || startsWith val "../".toList)) &&
    s.name.all (fun name => 1 ≤ (trim name).length) && hasValidTransformationOrdering s.transformations

def ConfigurationSchema.accepts (c : Configuration) : Bool :=
  1 ≤ c.name.length && c.homepage.all url && c.version.all versionFormat &&
    (!c.sources.isEmpty && c.sources.all (SourceSchema.accepts isURL)) && hasValidTransformationOrdering c.transformations

end Schemas
end AdblockCompiler.Config

namespace AdblockCompiler.Header
open JsText Config

def PACKAGE_NAME : Text := "@jk-com/adblock-compiler".toList
def VERSION : Text := "0.88.0".toList

structure Date where
  year : Int
  month : Nat
  day : Nat
  hours : Nat
  minutes : Nat
  seconds : Nat
  milliseconds : Nat

def digits : Nat → Nat → Text
  | 0,_ => []
  | width+1,n => digits width (n/10) ++ [Char.ofNat (48+n%10)]

def isoYear (year : Int) : Text :=
  if 0 ≤ year ∧ year ≤ 9999 then digits 4 year.toNat
  else (if 0 ≤ year then '+' else '-') :: digits 6 year.natAbs

def Date.toISOString (d : Date) : Text :=
  isoYear d.year ++ "-".toList ++ digits 2 d.month ++ "-".toList ++ digits 2 d.day ++ "T".toList ++ digits 2 d.hours ++
    ":".toList ++ digits 2 d.minutes ++ ":".toList ++ digits 2 d.seconds ++ ".".toList ++ digits 3 d.milliseconds ++ "Z".toList

structure HeaderOptions where
  timestamp : Option Date := none
  customLines : Option (List Text) := none

-- An absent and an empty text are both falsy.
def whenGiven (field : Option Text) (label : Text) : List Text :=
  match field with
  | none => []
  | some text => if text = [] then [] else [label ++ text]

def generateListHeader (now : Date) (configuration : Configuration) (options : HeaderOptions) : List Text :=
  ["!".toList,"! Title: ".toList ++ configuration.name] ++
    whenGiven configuration.description "! Description: ".toList ++
    whenGiven configuration.version "! Version: ".toList ++
    whenGiven configuration.homepage "! Homepage: ".toList ++
    whenGiven configuration.license "! License: ".toList ++
    ["! Last modified: ".toList ++ (options.timestamp.getD now).toISOString,"!".toList,
      "! Compiled by ".toList ++ PACKAGE_NAME ++ " v".toList ++ VERSION] ++
    (options.customLines.getD []).map ("! ".toList ++ ·) ++ ["!".toList]

def generateSourceHeader (source : Source) : List Text :=
  ["!".toList] ++ whenGiven source.name "! Source name: ".toList ++ ["! Source: ".toList ++ source.source,"!".toList]

-- The text of all generated headers of a list.
def headerText (now : Date) (configuration : Configuration) : Text :=
  ['\n'].intercalate (generateListHeader now configuration {} ++ configuration.sources.flatMap generateSourceHeader)

def textLines (text : Text) : List Text := text.splitOn '\n'
def isComment (line : Text) : Bool := startsWith line ['!']

-- A field that can stand in a comment: only its first line may start freely.
def Confined (field : Text) : Prop := ∀ line ∈ (textLines field).tail, isComment line = true

def printedFields (configuration : Configuration) : List Text :=
  configuration.name :: (configuration.description.toList ++ configuration.version.toList ++ configuration.homepage.toList ++
    configuration.license.toList ++ configuration.sources.flatMap fun source => source.name.toList ++ [source.source])

section Lines

def Commented (text : Text) : Prop := ∀ line ∈ textLines text, isComment line = true

theorem textLines_join (first : Text) (rest : List Text) :
    textLines (['\n'].intercalate (first :: rest)) = (first :: rest).flatMap textLines := splitOn_join (List.cons_ne_nil first rest)

theorem commented_join (lines : List Text) (some : lines ≠ []) :
    Commented (['\n'].intercalate lines) ↔ ∀ line ∈ lines, Commented line := by
  cases lines with
  | nil => exact absurd rfl some
  | cons first rest =>
    rw [Commented,textLines_join]
    constructor
    · intro all line member inner found
      exact all inner (List.mem_flatMap.mpr ⟨line,member,found⟩)
    · intro all inner found
      obtain ⟨line,member,inside⟩ := List.mem_flatMap.mp found
      exact all line member inner inside

theorem textLines_label (single : '\n' ∉ label) (field : Text) :
    textLines (label ++ field) = (textLines field).modifyHead (label ++ ·) := by
  induction label with
  | nil => cases shape : textLines field <;> simp [shape]
  | cons c label ih =>
    obtain ⟨other,more⟩ : '\n' ≠ c ∧ '\n' ∉ label := by simpa using single
    have differs : (c == '\n') = false := beq_eq_false_iff_ne.mpr (Ne.symm other)
    rw [List.cons_append,textLines,List.splitOn_cons_eq_if_modifyHead,differs,if_neg Bool.false_ne_true]
    have tail := ih more
    rw [textLines] at tail
    rw [tail]
    cases shape : textLines field <;> simp

-- A labelled line is a comment as a whole exactly when its field is confined.
theorem commented_label (label : Text) (single : '\n' ∉ label) (comment : isComment label = true) (field : Text) :
    Commented (label ++ field) ↔ Confined field := by
  rw [Commented,Confined,textLines_label single]
  cases shape : textLines field with
  | nil => exact absurd shape (List.splitOn_ne_nil '\n' field)
  | cons first rest =>
    have head : isComment (label ++ first) = true := by
      obtain ⟨after,same⟩ := startsWith_iff.mp comment
      exact startsWith_iff.mpr ⟨after ++ first,by rw [same,List.append_assoc]⟩
    simp [head]

theorem confined_single (single : '\n' ∉ field) : Confined field := by
  rw [Confined,textLines,List.splitOn_eq_singleton single]
  simp

theorem commented_single (single : '\n' ∉ line) (comment : isComment line = true) : Commented line := by
  have alone := (commented_label line single comment []).mpr (confined_single List.not_mem_nil)
  rw [List.append_nil] at alone
  exact alone

end Lines

section Fields

-- A date is written in digits and six signs.
section Dates
variable {p : Char → Prop} (digit : ∀ k < 10, p (Char.ofNat (48+k)))
include digit

theorem digits_all (width n : Nat) : ∀ c ∈ digits width n, p c := by
  induction width generalizing n with
  | zero => exact fun _ none => nomatch none
  | succ width ih =>
    rw [digits,List.forall_mem_append,List.forall_mem_singleton]
    exact ⟨ih (n/10),digit (n%10) (Nat.mod_lt n (by decide))⟩

variable (signs : ∀ c ∈ ['+','-','T',':','.','Z'], p c)
include signs

theorem isoYear_all (year : Int) : ∀ c ∈ isoYear year, p c := by
  unfold isoYear
  split
  · exact digits_all digit 4 _
  · rw [List.forall_mem_cons]
    refine ⟨?_,digits_all digit 6 _⟩
    split
    · exact signs '+' (by decide)
    · exact signs '-' (by decide)

theorem date_all (d : Date) : ∀ c ∈ d.toISOString, p c := by
  simp only [Date.toISOString,List.forall_mem_append]
  have sign (text : Text) (inside : ∀ c ∈ text, c ∈ ['+','-','T',':','.','Z']) : ∀ c ∈ text, p c :=
    fun c member => signs c (inside c member)
  refine ⟨⟨⟨⟨⟨⟨⟨⟨⟨⟨⟨⟨⟨isoYear_all digit signs _,?_⟩,digits_all digit 2 _⟩,?_⟩,digits_all digit 2 _⟩,?_⟩,digits_all digit 2 _⟩,?_⟩,
    digits_all digit 2 _⟩,?_⟩,digits_all digit 2 _⟩,?_⟩,digits_all digit 3 _⟩,?_⟩
  all_goals exact sign _ (every_char (by decide))

end Dates

theorem date_single (d : Date) : '\n' ∉ d.toISOString := fun member =>
  date_all (p := fun c => c ≠ '\n') (by decide) (every_char (by decide)) d '\n' member rfl

theorem given_commented (label : Text) (single : '\n' ∉ label) (comment : isComment label = true) (field : Option Text) :
    (∀ line ∈ whenGiven field label, Commented line) ↔ ∀ text ∈ field.toList, Confined text := by
  cases field with
  | none => simp [whenGiven]
  | some text =>
    by_cases empty : text = []
    · subst empty
      simp [whenGiven,confined_single]
    · simp [whenGiven,empty,commented_label label single comment]

theorem bar_commented : Commented "!".toList := commented_single (by decide) (by decide)

theorem source_commented (source : Source) :
    (∀ line ∈ generateSourceHeader source, Commented line) ↔ ∀ field ∈ source.name.toList ++ [source.source], Confined field := by
  have name := given_commented "! Source name: ".toList (by decide) (by decide) source.name
  have place := commented_label "! Source: ".toList (by decide) (by decide) source.source
  rw [generateSourceHeader,List.forall_mem_append,List.forall_mem_append,List.forall_mem_append,name]
  simp only [List.forall_mem_cons,place,bar_commented,List.not_mem_nil,false_imp_iff,implies_true,true_and,and_true]

theorem list_commented (now : Date) (configuration : Configuration) :
    (∀ line ∈ generateListHeader now configuration {}, Commented line) ↔
      Confined configuration.name ∧ (∀ text ∈ configuration.description.toList, Confined text) ∧
        (∀ text ∈ configuration.version.toList, Confined text) ∧ (∀ text ∈ configuration.homepage.toList, Confined text) ∧
        (∀ text ∈ configuration.license.toList, Confined text) := by
  have title := commented_label "! Title: ".toList (by decide) (by decide) configuration.name
  have description := given_commented "! Description: ".toList (by decide) (by decide) configuration.description
  have version := given_commented "! Version: ".toList (by decide) (by decide) configuration.version
  have homepage := given_commented "! Homepage: ".toList (by decide) (by decide) configuration.homepage
  have license := given_commented "! License: ".toList (by decide) (by decide) configuration.license
  have modified : Commented ("! Last modified: ".toList ++ now.toISOString) :=
    (commented_label _ (by decide) (by decide) _).mpr (confined_single (date_single now))
  have compiled : Commented ("! Compiled by ".toList ++ PACKAGE_NAME ++ " v".toList ++ VERSION) :=
    commented_single (by decide) (by decide)
  rw [generateListHeader]
  simp only [List.forall_mem_append,description,version,homepage,license]
  simp only [List.forall_mem_cons,title,bar_commented,Option.getD_none,List.map_nil,modified,compiled,List.not_mem_nil,
    false_imp_iff,implies_true,true_and,and_true,and_assoc]

-- The generated headers hold comments only exactly when every line after the
-- first of every printed field is written as a comment itself.
theorem headers_commented_exact (now : Date) (configuration : Configuration) :
    (∀ line ∈ textLines (headerText now configuration), isComment line = true) ↔
      ∀ field ∈ printedFields configuration, Confined field := by
  have some : generateListHeader now configuration {} ++ configuration.sources.flatMap generateSourceHeader ≠ [] := by
    simp [generateListHeader]
  have sources : (∀ line ∈ configuration.sources.flatMap generateSourceHeader, Commented line) ↔
      ∀ field ∈ configuration.sources.flatMap (fun source => source.name.toList ++ [source.source]), Confined field := by
    simp only [List.mem_flatMap,forall_exists_index,and_imp]
    constructor
    · intro all field source member found
      exact (source_commented source).mp (fun line inside => all line source member inside) field found
    · intro all line source member found
      exact (source_commented source).mpr (fun field inside => all field source member inside) line found
  refine (commented_join _ some).trans ?_
  rw [List.forall_mem_append,list_commented,sources,printedFields,List.forall_mem_cons]
  simp only [List.forall_mem_append,and_assoc]

-- A name with a line break passes the schema and ends its comment.
def broken : Configuration where
  name := "x\n||example.com^".toList
  sources := [{source := "/list.txt".toList}]

theorem name_injects : ConfigurationSchema.accepts (fun _ => false) (fun _ => true) broken = true ∧
    "||example.com^".toList ∈ textLines (headerText ⟨2025,1,2,3,4,5,6⟩ broken) ∧ isComment "||example.com^".toList = false := by
  refine ⟨by decide,?_,by decide⟩
  decide +kernel

end Fields

end AdblockCompiler.Header
