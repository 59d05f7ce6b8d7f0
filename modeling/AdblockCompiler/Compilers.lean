import AdblockCompiler.Header
import AdblockCompiler.IncludeGraph
import AdblockCompiler.Pipeline

namespace AdblockCompiler.Compilers
open JsText Config Pipeline Header

def METADATA_HEADER_PREFIXES : List Text :=
  ["! Title:","! Description:","! Homepage:","! License:","! Version:","! Last modified:","! Expires:","! TimeUpdated:",
    "! Checksum:","! Compiled by ","! Source name:","! Source:","! Diff-Path:","! Diff-Expires:"].map String.toList

def isMetadataHeader (line : Text) : Bool := METADATA_HEADER_PREFIXES.any (startsWith (trim line))

-- The loop with inHeaderSection and consecutiveEmptyComments.
def stripLoop : Bool → Nat → List Text → List Text
  | _,_,[] => []
  | inHeaderSection,consecutiveEmptyComments,line :: rest =>
    let trimmed := trim line
    if isMetadataHeader line then stripLoop inHeaderSection consecutiveEmptyComments rest
    else if trimmed = ['!'] ∧ inHeaderSection then
      if 1 < consecutiveEmptyComments+1 then stripLoop inHeaderSection (consecutiveEmptyComments+1) rest
      else line :: stripLoop inHeaderSection (consecutiveEmptyComments+1) rest
    else if trimmed ≠ [] ∧ startsWith trimmed ['!'] = false then line :: stripLoop false 0 rest
    else if startsWith trimmed ['!'] ∧ trimmed ≠ ['!'] then line :: stripLoop inHeaderSection 0 rest
    else line :: stripLoop inHeaderSection consecutiveEmptyComments rest

def stripUpstreamHeaders (lines : List Text) : List Text := (stripLoop true 0 lines).dropWhile fun line => trim line = ['!']

-- What both compilers run with. patternDownloader is the FilterDownloader
-- without options that lists of patterns are read with, digest the Base64 of
-- the SHA-256 of a text; the two schema checks and the message of a refused
-- configuration are those of the validator. browserFetch is there when the
-- worker was given a browser to render pages with.
structure Runtime where
  filterDownloader : Download.FilterDownloader
  patternDownloader : Download.FilterDownloader
  platformDownloader : Download.PlatformDownloader
  browserFetch : Option (Text → Except Thrown Text) := none
  regExp : Text → Except Thrown (Text → Bool)
  canonicalize : Char → Char
  parser : Rules.RuleParser
  registry : TransformationRegistry
  digest : Text → Text
  isURL : Text → Bool
  url : Text → Bool
  errorsText : Configuration → Text

section Compilers
variable (r : Runtime)

def download (source : Text) : Except Thrown (List Text) := (r.filterDownloader.downloader.download source).1

def pipeline : TransformationPipeline where
  filterService := ⟨r.regExp,r.canonicalize,r.parser,fun source => (r.patternDownloader.downloader.download source).1⟩
  registry := r.registry

def calculateChecksum (lines : List Text) : Text :=
  (r.digest (['\n'].intercalate (lines.filter fun line => !startsWith line "! Checksum:".toList))).take 27

def addChecksumToHeader (lines : List Text) : List Text :=
  let checksumLine := "! Checksum: ".toList ++ calculateChecksum r lines
  let insertIndex :=
    match lines.findIdx? (includes · "! Compiled by".toList) with
    | none => (lines.findIdx? fun line => trim line ≠ [] && !startsWith line ['!']).getD lines.length
    | some compiledByIndex =>
      if 0 < compiledByIndex ∧ lines[compiledByIndex-1]? = some ['!'] then compiledByIndex-1 else compiledByIndex
  lines.take insertIndex ++ [checksumLine] ++ lines.drop insertIndex

-- A SourceError is passed on, any other error becomes one.
def sourceError (failure : Failure) : Failure :=
  if failure.kind = .source then failure else ⟨.source,"Failed to compile source: ".toList ++ failure.message⟩

def SourceCompiler.compile (source : Source) : Except Failure (List Text) :=
  Except.mapError sourceError <|
    match download r source.source with
    | .error thrown => .error (sourceDownloadError source.source thrown)
    | .ok downloaded =>
      let rules := stripUpstreamHeaders downloaded
      let transformations := source.transformations.getD []
      if transformations.length > 0 then transform (pipeline r) rules source.toFilterable transformations else .ok rules

def WorkerCompiler.applySourceTransformations (rules : List Text) (source : Source) (configuration : Configuration) :
    Except Failure (List Text) :=
  let sourceTransformations := source.transformations.getD []
  if sourceTransformations.length = 0 then .ok rules
  else transform (pipeline r) rules configuration.toFilterable sourceTransformations

def noBrowser (source : Text) : Thrown :=
  "Source '".toList ++ source ++
    "' has useBrowser: true but browserConnector and browserBinding were not provided to WorkerCompiler".toList

-- The PlatformDownloader over getFetcherForSource.
def WorkerCompiler.makeDownloader (source : Source) : Except Thrown Download.PlatformDownloader :=
  if source.useBrowser.getD false then
    match r.browserFetch with
    | none => .error (noBrowser source.source)
    | some fetch => .ok { r.platformDownloader with canHandle := Paths.isUrl, fetch := fetch }
  else .ok r.platformDownloader

def WorkerCompiler.download (source : Source) : Except Thrown (List Text) :=
  (makeDownloader r source).bind fun p => (p.downloader.download source.source).1

def WorkerCompiler.compileSource (configuration : Configuration) (source : Source) : Except Failure (List Text) :=
  match download r source with
  | .error thrown => .error ⟨.other,thrown⟩
  | .ok rules => applySourceTransformations r (stripUpstreamHeaders rules) source configuration

-- What both compilers do with the rules of the sources.
def compileLists (compileSource : Source → Except Failure (List Text)) (configuration : Configuration) : Except Failure (List Text) :=
  (configuration.sources.mapM fun source => (compileSource source).map (generateSourceHeader source ++ ·)).bind fun sourceResults =>
    transform (pipeline r) sourceResults.flatten configuration.toFilterable (configuration.transformations.getD [])

def assemble (now : Date) (configuration : Configuration) (finalList : List Text) : List Text :=
  addChecksumToHeader r (generateListHeader now configuration {} ++ finalList)

def compilationError (failure : Failure) : Failure :=
  if failure.kind = .configuration ∨ failure.kind = .compilation then failure
  else ⟨.compilation,"Compilation failed: ".toList ++ failure.message⟩

def FilterCompiler.compileWithMetrics (now : Date) (configuration : Configuration) : Except Failure (List Text) :=
  Except.mapError compilationError <|
    if ConfigurationSchema.accepts r.isURL r.url configuration = false then .error ⟨.configuration,r.errorsText configuration⟩
    else (compileLists r (SourceCompiler.compile r) configuration).map (assemble r now configuration)

def WorkerCompiler.compileWithMetrics (now : Date) (configuration : Configuration) : Except Failure (List Text) :=
  if ConfigurationSchema.accepts r.isURL r.url configuration = false then .error ⟨.other,"Failed to validate configuration".toList⟩
  else (compileLists r (WorkerCompiler.compileSource r configuration) configuration).map (assemble r now configuration)

end Compilers

section Headers

-- No upstream metadata line is left, and nothing else is put in.
theorem strip_exact (lines : List Text) :
    (stripUpstreamHeaders lines).Sublist lines ∧ ∀ line ∈ stripUpstreamHeaders lines, isMetadataHeader line = false := by
  have loop (inHeaderSection : Bool) (count : Nat) : (stripLoop inHeaderSection count lines).Sublist lines ∧
      ∀ line ∈ stripLoop inHeaderSection count lines, isMetadataHeader line = false := by
    induction lines generalizing inHeaderSection count with
    | nil => exact ⟨List.Sublist.refl [],fun _ member => by cases member⟩
    | cons line rest ih =>
      have drop (section_ : Bool) (count : Nat) : (stripLoop section_ count rest).Sublist (line :: rest) ∧
          ∀ l ∈ stripLoop section_ count rest, isMetadataHeader l = false :=
        ⟨(ih section_ count).1.cons line,(ih section_ count).2⟩
      have keep (plain : ¬ isMetadataHeader line = true) (section_ : Bool) (count : Nat) :
          (line :: stripLoop section_ count rest).Sublist (line :: rest) ∧
            ∀ l ∈ line :: stripLoop section_ count rest, isMetadataHeader l = false := by
        refine ⟨(ih section_ count).1.cons_cons line,List.forall_mem_cons.mpr ⟨by simpa using plain,(ih section_ count).2⟩⟩
      rw [stripLoop]
      split
      · exact drop _ _
      · next plain =>
        split
        · split
          · exact drop _ _
          · exact keep plain _ _
        · split
          · exact keep plain _ _
          · split <;> exact keep plain _ _
  obtain ⟨inside,clean⟩ := loop true 0
  have suffix : (stripUpstreamHeaders lines).Sublist (stripLoop true 0 lines) := List.dropWhile_sublist _
  exact ⟨suffix.trans inside,fun line member => clean line (suffix.subset member)⟩

end Headers

section Filters
variable (r : Runtime)

-- The lines of a source that its requested transformations are given.
def SourceCompiler.survivors (rules : List Text) (source : Source) : Except Failure (List Text) :=
  if source.transformations.getD [] = [] then .ok rules else filterRules (pipeline r) rules source.toFilterable

def WorkerCompiler.survivors (rules : List Text) (source : Source) (configuration : Configuration) : Except Failure (List Text) :=
  if source.transformations.getD [] = [] then .ok rules else filterRules (pipeline r) rules configuration.toFilterable

-- A list is what the requested transformations make of lines that respect the
-- source's own patterns.
structure Honours (source : Source) (patterns : Patterns) (survivors output : Except Failure (List Text)) : Prop where
  stage : output.toOption =
    (survivors.bind (applyTransformations (pipeline r) (getOrderedTransformations (source.transformations.getD [])))).toOption
  respected : ∀ kept, survivors = .ok kept → ∀ rule ∈ kept, patterns.Respects rule

theorem mapError_toOption (result : Except ε α) (f : ε → δ) : (result.mapError f).toOption = result.toOption := by
  cases result <;> rfl

theorem source_stage (fetched : download r source.source = .ok downloaded) :
    (SourceCompiler.compile r source).toOption =
      ((SourceCompiler.survivors r (stripUpstreamHeaders downloaded) source).bind
        (applyTransformations (pipeline r) (getOrderedTransformations (source.transformations.getD [])))).toOption := by
  rw [SourceCompiler.compile,mapError_toOption,fetched,SourceCompiler.survivors]
  by_cases none : source.transformations.getD [] = []
  · simp only [none,List.length_nil,gt_iff_lt,Nat.lt_irrefl,if_false,if_true]
    rfl
  · have some : (source.transformations.getD []).length > 0 := List.length_pos_of_ne_nil none
    simp only [none,some,if_false,if_true]
    rfl

theorem worker_stage (rules : List Text) (source : Source) (configuration : Configuration) :
    WorkerCompiler.applySourceTransformations r rules source configuration =
      (WorkerCompiler.survivors r rules source configuration).bind
        (applyTransformations (pipeline r) (getOrderedTransformations (source.transformations.getD []))) := by
  rw [WorkerCompiler.applySourceTransformations,WorkerCompiler.survivors]
  by_cases none : source.transformations.getD [] = []
  · simp only [none,List.length_nil,if_true]
    rfl
  · have some : ¬ (source.transformations.getD []).length = 0 := fun zero => none (List.eq_nil_of_length_eq_zero zero)
    simp only [none,some,if_false]
    rfl

-- A line reaches the worker's transformations of a source when the source asks
-- for none, or when the global patterns let it pass.
def Reaches (configuration : Configuration) (source : Source) (line : Text) : Prop :=
  source.transformations.getD [] = [] ∨
    ∃ patterns, Prepares (pipeline r).filterService configuration.toFilterable patterns ∧ patterns.Respects line

theorem source_honours_exact (prepared : Prepares (pipeline r).filterService source.toFilterable patterns)
    (fetched : download r source.source = .ok downloaded) :
    Honours r source patterns (SourceCompiler.survivors r (stripUpstreamHeaders downloaded) source) (SourceCompiler.compile r source) ↔
      (source.transformations.getD [] = [] → ∀ line ∈ stripUpstreamHeaders downloaded, patterns.Respects line) := by
  constructor
  · intro honours none line member
    have survivors : SourceCompiler.survivors r (stripUpstreamHeaders downloaded) source = .ok (stripUpstreamHeaders downloaded) :=
      if_pos none
    exact honours.respected _ survivors line member
  · intro respected
    refine ⟨source_stage r fetched,?_⟩
    intro kept survivors rule member
    unfold SourceCompiler.survivors at survivors
    split at survivors
    · next none =>
      cases survivors
      exact respected none rule member
    · obtain ⟨lines,filtered,-,exact_⟩ := filterRules_exact (pipeline r) prepared (stripUpstreamHeaders downloaded)
      rw [filtered] at survivors
      cases survivors
      exact ((exact_ rule).mp member).2

theorem worker_honours_exact (patterns : Patterns) (rules : List Text) (source : Source) (configuration : Configuration) :
    Honours r source patterns (WorkerCompiler.survivors r rules source configuration)
        (WorkerCompiler.applySourceTransformations r rules source configuration) ↔
      ∀ line ∈ rules, Reaches r configuration source line → patterns.Respects line := by
  have member : ∀ kept, WorkerCompiler.survivors r rules source configuration = .ok kept →
      ∀ line, line ∈ kept ↔ line ∈ rules ∧ Reaches r configuration source line := by
    intro kept survivors line
    unfold WorkerCompiler.survivors at survivors
    by_cases none : source.transformations.getD [] = []
    · rw [if_pos none] at survivors
      cases survivors
      simp [Reaches,none]
    · rw [if_neg none] at survivors
      obtain ⟨own,prepared⟩ := filterRules_prepared (pipeline r) survivors
      obtain ⟨lines,filtered,-,exact_⟩ := filterRules_exact (pipeline r) prepared rules
      rw [filtered] at survivors
      cases survivors
      rw [exact_ line]
      constructor
      · intro given
        obtain ⟨inside,respects⟩ := given
        exact ⟨inside,.inr ⟨own,prepared,respects⟩⟩
      · rintro ⟨inside,empty | ⟨other,again,respects⟩⟩
        · exact absurd empty none
        · have same : other = own := by
            obtain ⟨E,I⟩ := other
            obtain ⟨E',I'⟩ := own
            have first := again.1.symm.trans prepared.1
            have second := again.2.symm.trans prepared.2
            cases first
            cases second
            rfl
          exact ⟨inside,same ▸ respects⟩
  constructor
  · intro honours line inside reaches
    cases survivors : WorkerCompiler.survivors r rules source configuration with
    | ok kept => exact honours.respected kept survivors line ((member kept survivors line).mpr ⟨inside,reaches⟩)
    | error failure =>
      unfold WorkerCompiler.survivors at survivors
      split at survivors
      · cases survivors
      · next none =>
        obtain ⟨own,prepared,-⟩ := reaches.resolve_left none
        obtain ⟨lines,filtered,-,-⟩ := filterRules_exact (pipeline r) prepared rules
        rw [filtered] at survivors
        cases survivors
  · intro respected
    refine ⟨by rw [worker_stage],?_⟩
    intro kept survivors line inside
    obtain ⟨listed,reaches⟩ := (member kept survivors line).mp inside
    exact respected line listed reaches

-- The two compilers' conditions together: the source compiler only fails where
-- no transformation is requested, and there the worker fails as well.
theorem source_filters_exact (configuration : Configuration) (source : Source) (patterns : Patterns)
    (prepared : Prepares (pipeline r).filterService source.toFilterable patterns)
    (fetched : download r source.source = .ok downloaded) :
    Honours r source patterns (SourceCompiler.survivors r (stripUpstreamHeaders downloaded) source) (SourceCompiler.compile r source) ∧
        Honours r source patterns (WorkerCompiler.survivors r (stripUpstreamHeaders downloaded) source configuration)
          (WorkerCompiler.applySourceTransformations r (stripUpstreamHeaders downloaded) source configuration) ↔
      ∀ line ∈ stripUpstreamHeaders downloaded, Reaches r configuration source line → patterns.Respects line := by
  rw [source_honours_exact r prepared fetched,worker_honours_exact]
  constructor
  · exact And.right
  · intro respected
    exact ⟨fun none line member => respected line member (.inl none),respected⟩

end Filters

section Runs

def emptyLines : TransformationRegistry := fun type =>
  if type = .RemoveEmptyLines then some fun rules => .ok (rules.filter fun line => 0 < (trim line).length) else none

-- One list on the network, served to both compilers.
def oneList (content : Text) : Download.FilterDownloader where
  fetchUrl := fun _ => .ok content
  readFile := fun _ => .error "File not found".toList
  newURL := fun _ _ => .error "Invalid URL".toList
  toLowerCase := lowerCase

def runtimeOf (content : Text) : Runtime where
  filterDownloader := oneList content
  patternDownloader := oneList content
  platformDownloader :=
    { canHandle := Paths.isUrl
      fetch := fun _ => .ok content
      newURL := fun _ _ => .error "Invalid URL".toList
      newFunction := fun body => if body = "true".toList then some true else if body = "false".toList then some false else none
      toLowerCase := lowerCase }
  regExp := fun _ => .error "Invalid regular expression".toList
  canonicalize := Char.toUpper
  parser := Rules.basicParser
  registry := emptyLines
  digest := id
  isURL := Paths.isUrl
  url := Paths.isUrl
  errorsText := fun _ => []

def twoHosts : Runtime := runtimeOf "||ads.example^\n||cdn.example^".toList
def hosts : List Text := ["||ads.example^".toList,"||cdn.example^".toList]

def noAds : Source where
  source := "https://lists.example/a.txt".toList
  exclusions := some ["ads".toList]
  transformations := some [.RemoveEmptyLines]

def configured (exclusions : Option (List Text)) (source : Source) : Configuration where
  name := "List".toList
  sources := [source]
  exclusions := exclusions

def adsExcluded : Patterns := ⟨[⟨"ads".toList,none⟩],[]⟩

theorem shared_filter_honoured :
    Honours twoHosts noAds adsExcluded (SourceCompiler.survivors twoHosts (stripUpstreamHeaders hosts) noAds)
        (SourceCompiler.compile twoHosts noAds) ∧
      Honours twoHosts noAds adsExcluded
        (WorkerCompiler.survivors twoHosts (stripUpstreamHeaders hosts) noAds (configured (some ["ads".toList]) noAds))
        (WorkerCompiler.applySourceTransformations twoHosts (stripUpstreamHeaders hosts) noAds
          (configured (some ["ads".toList]) noAds)) := by
  have prepared : Prepares (pipeline twoHosts).filterService noAds.toFilterable adsExcluded := ⟨rfl,rfl⟩
  apply (source_filters_exact twoHosts _ noAds adsExcluded prepared (by decide)).mpr
  rintro line - (none | ⟨⟨E,I⟩,⟨first,second⟩,respects⟩)
  · cases none
  · have one : E = adsExcluded.exclusions := (Except.ok.inj (prepared.1.symm.trans first)).symm
    have two : I = adsExcluded.inclusions := (Except.ok.inj (prepared.2.symm.trans second)).symm
    subst one two
    exact respects

-- The worker hands the global configuration to the stage of a source.
theorem worker_ignores_exclusions :
    Prepares (pipeline twoHosts).filterService noAds.toFilterable adsExcluded ∧ download twoHosts noAds.source = .ok hosts ∧
    ¬ (Honours twoHosts noAds adsExcluded (SourceCompiler.survivors twoHosts (stripUpstreamHeaders hosts) noAds)
          (SourceCompiler.compile twoHosts noAds) ∧
        Honours twoHosts noAds adsExcluded
          (WorkerCompiler.survivors twoHosts (stripUpstreamHeaders hosts) noAds (configured none noAds))
          (WorkerCompiler.applySourceTransformations twoHosts (stripUpstreamHeaders hosts) noAds (configured none noAds))) := by
  refine ⟨⟨rfl,rfl⟩,by decide,?_⟩
  intro given
  obtain ⟨-,honours⟩ := given
  have respects := honours.respected hosts (by decide) "||ads.example^".toList (by decide)
  exact respects.1 ⟨⟨"ads".toList,none⟩,List.mem_singleton_self _,by decide⟩

end Runs

section Documents
open Download Preprocessor Paths

-- One text for each URL, given to both downloaders.
structure Serves (r : Runtime) (pages : Text → Text) : Prop where
  fetchUrl : ∀ source, isUrl source = true → r.filterDownloader.fetchUrl source = .ok (pages source)
  fetch : ∀ source, isUrl source = true → r.platformDownloader.canHandle source = true ∧
    r.platformDownloader.fetch source = .ok (pages source)
  newURL : r.platformDownloader.newURL = r.filterDownloader.newURL
  depth : r.platformDownloader.maxIncludeDepth = r.filterDownloader.maxIncludeDepth

variable (r : Runtime)

theorem read_page (serves : Serves r pages) (url : isUrl source = true) :
    r.filterDownloader.downloader.read source = .ok (pages source) ∧
      r.platformDownloader.downloader.read source = .ok (pages source) := by
  obtain ⟨handles,fetched⟩ := serves.fetch source url
  have first := serves.fetchUrl source url
  constructor
  · simp only [FilterDownloader.downloader,url,if_true,first]
  · simp only [PlatformDownloader.downloader,handles,if_true,fetched]

theorem resolve_agree (newURL : Text → Text → Except Thrown Text) (remote : Remote newURL path base) (url : isUrl base = true) :
    PathUtils.resolveIncludePath newURL path base = Paths.PlatformDownloader.resolveIncludePath newURL path base := by
  unfold PathUtils.resolveIncludePath Paths.PlatformDownloader.resolveIncludePath
  rcases remote with direct | ⟨relative,href,parsed,-⟩
  · simp only [direct,Bool.or_true,if_true]
  · simp only [url,parsed,if_true]

-- Both compilers report any failure of a download; which one is left out.
def untold (_ : Thrown) : Unit := ()

-- The plain case: an http(s) document of which the evaluators choose the same
-- branches and which includes http(s) documents.
theorem outline_remote (serves : Serves r pages) (room : Nat) (url : isUrl source = true)
    (branches : r.platformDownloader.downloader.contents (pages source) = r.filterDownloader.downloader.contents (pages source))
    (remote : ∀ path ∈ includePaths (r.filterDownloader.downloader.contents (pages source)), Remote r.filterDownloader.newURL path source) :
    r.platformDownloader.downloader.outline untold room source = r.filterDownloader.downloader.outline untold room source := by
  obtain ⟨first,second⟩ := read_page r serves url
  rw [Downloader.outline,Downloader.outline,first,second]
  refine congrArg Except.ok ?_
  rw [branches]
  apply steps_same
  intro path member
  show Paths.PlatformDownloader.resolveIncludePath r.platformDownloader.newURL path source = PathUtils.resolveIncludePath r.filterDownloader.newURL path source
  rw [serves.newURL]
  exact (resolve_agree r.filterDownloader.newURL (remote path member) url).symm

end Documents

section Agreement
variable (r : Runtime)

-- The lines that the clock decides.
def generatedLine (line : Text) : Bool := startsWith line "! Last modified: ".toList || startsWith line "! Checksum: ".toList

def ruleLines (output : List Text) : List Text := output.filter fun line => !generatedLine line

def SameRules (configuration : Configuration) : Prop :=
  ∀ now later, (FilterCompiler.compileWithMetrics r now configuration).toOption.map ruleLines =
    (WorkerCompiler.compileWithMetrics r later configuration).toOption.map ruleLines

theorem ruleLines_checksum (lines : List Text) : ruleLines (addChecksumToHeader r lines) = ruleLines lines := by
  have checksum (text : Text) : generatedLine ("! Checksum: ".toList ++ text) = true := by
    rw [generatedLine,startsWith_append,Bool.or_true]
  have insert (index : Nat) (text : Text) :
      ruleLines (lines.take index ++ ["! Checksum: ".toList ++ text] ++ lines.drop index) = ruleLines lines := by
    have single : ruleLines ["! Checksum: ".toList ++ text] = [] := by
      rw [ruleLines,List.filter_cons_of_neg (by rw [checksum]; exact Bool.false_ne_true)]
      rfl
    have parts (front tail : List Text) : ruleLines (front ++ tail) = ruleLines front ++ ruleLines tail := List.filter_append ..
    rw [parts,parts,single,List.append_nil,← parts,List.take_append_drop]
  exact insert _ _

theorem ruleLines_assemble (now later : Date) (configuration : Configuration) (finalList : List Text) :
    ruleLines (assemble r now configuration finalList) = ruleLines (assemble r later configuration finalList) := by
  have timestamp (text : Text) : generatedLine ("! Last modified: ".toList ++ text) = true := by
    rw [generatedLine,startsWith_append,Bool.true_or]
  have header (now : Date) : ruleLines (generateListHeader now configuration {}) =
      ruleLines (generateListHeader later configuration {}) := by
    simp only [ruleLines,generateListHeader,List.filter_append,List.filter_cons,timestamp,Bool.not_true,Bool.false_eq_true,if_false,
      Option.getD_none]
  have parts (front tail : List Text) : ruleLines (front ++ tail) = ruleLines front ++ ruleLines tail := List.filter_append ..
  rw [assemble,assemble,ruleLines_checksum,ruleLines_checksum,parts,parts,header]

theorem mapM_toOption {α β ε : Type} (one two : α → Except ε β) (xs : List α) (same : ∀ x ∈ xs, (one x).toOption = (two x).toOption) :
    (xs.mapM one).toOption = (xs.mapM two).toOption := by
  induction xs with
  | nil => rfl
  | cons x rest ih =>
    have tail := ih fun y member => same y (List.mem_cons_of_mem x member)
    have head := same x List.mem_cons_self
    rw [List.mapM_cons,List.mapM_cons]
    cases first : one x <;> cases second : two x <;> rw [first,second] at head
    · rfl
    · cases head
    · cases head
    · cases head
      cases left : rest.mapM one <;> cases right : rest.mapM two <;> rw [left,right] at tail
      · rfl
      · cases tail
      · cases tail
      · cases tail
        rfl

theorem bind_toOption {α β ε : Type} {one two : Except ε α} (same : one.toOption = two.toOption) (f : α → Except ε β) :
    (one.bind f).toOption = (two.bind f).toOption := by
  cases one <;> cases two <;> cases same <;> rfl

theorem map_toOption (result : Except ε α) (f : α → β) : (result.map f).toOption = result.toOption.map f := by
  cases result <;> rfl

-- What the two compilers treat alike: every document that a source opens reads
-- the same once its conditions are decided and its paths are resolved, and the
-- filter of a source keeps the lines that the filter of the list would.
structure Alike (configuration : Configuration) : Prop where
  documents : ∀ source ∈ configuration.sources, ∀ entry ∈ r.filterDownloader.downloader.opened source.source,
    r.platformDownloader.downloader.outline untold entry.2 entry.1 = r.filterDownloader.downloader.outline untold entry.2 entry.1
  stages : ∀ source ∈ configuration.sources, source.transformations.getD [] ≠ [] → ∀ downloaded,
    download r source.source = .ok downloaded →
      (filterRules (pipeline r) (stripUpstreamHeaders downloaded) source.toFilterable).toOption =
        (filterRules (pipeline r) (stripUpstreamHeaders downloaded) configuration.toFilterable).toOption

theorem untold_toOption {one two : Except Thrown (List Text)} (same : one.mapError untold = two.mapError untold) :
    one.toOption = two.toOption := by
  rw [← mapError_toOption one untold,same,mapError_toOption]

theorem plain_download (plain : source.useBrowser.getD false = false) :
    WorkerCompiler.download r source = (r.platformDownloader.downloader.download source.source).1 := by
  rw [WorkerCompiler.download,WorkerCompiler.makeDownloader,plain]
  rfl

theorem source_agree (serves : Serves r pages) (alike : Alike r configuration) (member : source ∈ configuration.sources)
    (plain : source.useBrowser.getD false = false) :
    (SourceCompiler.compile r source).toOption = (WorkerCompiler.compileSource r configuration source).toOption := by
  have depth : r.platformDownloader.downloader.maxIncludeDepth = r.filterDownloader.downloader.maxIncludeDepth := serves.depth
  have same : (r.platformDownloader.downloader.download source.source).1.toOption = (download r source.source).toOption :=
    untold_toOption (congrArg Prod.fst (Download.download_same untold _ _ depth (alike.documents source member)))
  rw [WorkerCompiler.compileSource,plain_download r plain]
  cases fetched : download r source.source with
  | error thrown =>
    rw [fetched] at same
    rw [SourceCompiler.compile,mapError_toOption,fetched]
    cases worker : (r.platformDownloader.downloader.download source.source).1 with
    | error other => rfl
    | ok lines =>
      rw [worker] at same
      cases same
  | ok downloaded =>
    rw [fetched] at same
    cases worker : (r.platformDownloader.downloader.download source.source).1 with
    | error other =>
      rw [worker] at same
      cases same
    | ok lines =>
      rw [worker] at same
      obtain rfl : lines = downloaded := Option.some.inj same
      rw [source_stage r fetched]
      simp only [worker_stage]
      apply bind_toOption
      rw [SourceCompiler.survivors,WorkerCompiler.survivors]
      split
      · rfl
      · next some => exact alike.stages source member some lines fetched

theorem compilers_agree (serves : Serves r pages) (configuration : Configuration)
    (plain : ∀ source ∈ configuration.sources, source.useBrowser.getD false = false) (alike : Alike r configuration) :
    SameRules r configuration ∧ ∀ now, (FilterCompiler.compileWithMetrics r now configuration).toOption =
      (WorkerCompiler.compileWithMetrics r now configuration).toOption := by
  have lists : (compileLists r (SourceCompiler.compile r) configuration).toOption =
      (compileLists r (WorkerCompiler.compileSource r configuration) configuration).toOption := by
    apply bind_toOption
    apply mapM_toOption
    intro source member
    rw [map_toOption,map_toOption,source_agree r serves alike member (plain source member)]
  have both : ∃ finalList : Option (List Text),
      (∀ now, (FilterCompiler.compileWithMetrics r now configuration).toOption = finalList.map (assemble r now configuration)) ∧
      ∀ now, (WorkerCompiler.compileWithMetrics r now configuration).toOption = finalList.map (assemble r now configuration) := by
    by_cases refused : ConfigurationSchema.accepts r.isURL r.url configuration = false
    · refine ⟨none,?_,?_⟩
      · intro now
        rw [FilterCompiler.compileWithMetrics,mapError_toOption,if_pos refused]
        rfl
      · intro now
        rw [WorkerCompiler.compileWithMetrics,if_pos refused]
        rfl
    · refine ⟨(compileLists r (SourceCompiler.compile r) configuration).toOption,?_,?_⟩
      · intro now
        rw [FilterCompiler.compileWithMetrics,mapError_toOption,if_neg refused,map_toOption]
      · intro now
        rw [WorkerCompiler.compileWithMetrics,if_neg refused,map_toOption,lists]
  constructor
  · intro now later
    obtain ⟨finalList,first,second⟩ := both
    have clock : ruleLines ∘ assemble r now configuration = ruleLines ∘ assemble r later configuration := by
      funext lines
      rw [Function.comp_apply,Function.comp_apply,ruleLines_assemble r now later]
    rw [first,second,Option.map_map,Option.map_map,clock]
  · intro now
    obtain ⟨finalList,first,second⟩ := both
    rw [first,second]

end Agreement

section Outputs

theorem runtimeOf_serves (content : Text) : Serves (runtimeOf content) fun _ => content :=
  ⟨fun _ _ => rfl,fun _ url => ⟨url,rfl⟩,rfl,rfl⟩

def forWindows : Text := "||a.example^\n!#if windows\n||win.example^\n!#endif".toList
def conditional : Runtime := runtimeOf forWindows

def unfiltered : Source where
  source := "https://lists.example/a.txt".toList

theorem unfiltered_agrees : SameRules conditional (configured (some ["ads".toList]) unfiltered) ∧
    ∀ now, (FilterCompiler.compileWithMetrics conditional now (configured (some ["ads".toList]) unfiltered)).toOption =
      (WorkerCompiler.compileWithMetrics conditional now (configured (some ["ads".toList]) unfiltered)).toOption := by
  apply compilers_agree conditional (runtimeOf_serves forWindows)
  · intro source member
    obtain rfl := List.mem_singleton.mp member
    rfl
  refine ⟨?_,?_⟩
  · intro source member entry inside
    obtain rfl := List.mem_singleton.mp member
    have opened : conditional.filterDownloader.downloader.opened unfiltered.source = [(unfiltered.source,10)] := by decide +kernel
    rw [opened] at inside
    obtain rfl := List.mem_singleton.mp inside
    have none : Download.includePaths (conditional.filterDownloader.downloader.contents forWindows) = [] := by decide +kernel
    apply outline_remote conditional (runtimeOf_serves forWindows) 10 rfl
    · decide +kernel
    · intro path included
      rw [none] at included
      cases included
  · intro source member some
    obtain rfl := List.mem_singleton.mp member
    exact absurd rfl some

def epoch : Date := ⟨1970,1,1,0,0,0,0⟩

-- The source's exclusion is applied by one compiler only.
theorem excluded_rule_shipped : Serves twoHosts (fun _ => "||ads.example^\n||cdn.example^".toList) ∧
    ConfigurationSchema.accepts twoHosts.isURL twoHosts.url (configured none noAds) = true ∧
    ¬ SameRules twoHosts (configured none noAds) := by
  refine ⟨runtimeOf_serves _,by decide,?_⟩
  intro same
  have outputs := same epoch epoch
  revert outputs
  decide +kernel

end Outputs

end AdblockCompiler.Compilers
