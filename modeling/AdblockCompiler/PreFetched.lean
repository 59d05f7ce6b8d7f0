import AdblockCompiler.Compilers
import AdblockCompiler.HttpFetcher
import AdblockCompiler.KeyedRows

-- The fetchers that the worker's compiler reads its sources with, and the
-- compilation that needs no network because its content was fetched before.
namespace AdblockCompiler.PreFetched
open JsText Config Pipeline Compilers Download Preprocessor KeyedRows

structure ContentFetcher where
  canHandle : Text → Bool
  fetch : Text → Except Thrown Text

abbrev ContentMap := Table (Prod.fst : Text × Text → Text)

def ContentMap.has (content : ContentMap) (source : Text) : Bool := (content.find source).isSome
def ContentMap.get (content : ContentMap) (source : Text) : Option Text := (content.find source).map Prod.snd

def PreFetchedContentFetcher (contentMap : ContentMap) : ContentFetcher where
  canHandle := contentMap.has
  fetch source :=
    match contentMap.get source with
    | none => .error ("No pre-fetched content available for: ".toList ++ source)
    | some content => .ok content

def fetchFirst : List ContentFetcher → Text → Except Thrown Text
  | [],source => .error (noFetcher source)
  | fetcher :: rest,source => if fetcher.canHandle source then fetcher.fetch source else fetchFirst rest source

def CompositeFetcher (fetchers : List ContentFetcher) : ContentFetcher where
  canHandle source := fetchers.any fun f => f.canHandle source
  fetch := fetchFirst fetchers

-- The parser of URLs and the network are parameters.
def httpFetcher (parse : Text → Option HttpFetcher.URL) (request : Text → HttpFetcher.RequestInit → Except Thrown HttpFetcher.Response)
    (options : HttpFetcher.HttpFetcherOptions) : ContentFetcher := ⟨Paths.isUrl,HttpFetcher.fetch parse request options⟩

-- A page that a browser opened, or what connecting to the browser threw; the
-- binding and the script that takes the text off the page are behind it.
abbrev BrowserConnector := Except Thrown (Text → Except Thrown Text)

def BrowserFetcher (parse : Text → Option HttpFetcher.URL) (connect : BrowserConnector) : ContentFetcher where
  canHandle := Paths.isUrl
  fetch url :=
    if HttpFetcher.isSafeUrl parse url = false then .error ("Blocked browser request to private/internal address: ".toList ++ url)
    else
      match connect with
      | .error thrown => .error thrown
      | .ok page => (page url).mapError fun thrown => "BrowserFetcher failed to fetch '".toList ++ url ++ "': ".toList ++ thrown

def buildFetcher (customFetcher : Option ContentFetcher) (preFetchedContent : Option ContentMap) (http : ContentFetcher) : ContentFetcher :=
  match customFetcher with
  | some fetcher => fetcher
  | none =>
    match preFetchedContent with
    | none => http
    | some content => CompositeFetcher [PreFetchedContentFetcher content,http]

-- A worker's compiler over these fetchers. Its filter reads lists of patterns
-- through a downloader of its own.
def withFetcher (r : Runtime) (fetcher : ContentFetcher) (patterns : FilterDownloader) : Runtime :=
  { r with
    platformDownloader := { r.platformDownloader with canHandle := fetcher.canHandle, fetch := fetcher.fetch }
    patternDownloader := patterns }

section Reading

-- What was fetched before wins over the network, and only http(s) sources are
-- asked of the network at all.
theorem chain_read (r : Runtime) (content : ContentMap) (http : Text → Except Thrown Text) (patterns : FilterDownloader) (source : Text) :
    (withFetcher r (buildFetcher none (some content) ⟨Paths.isUrl,http⟩) patterns).platformDownloader.downloader.read source =
      match content.get source with
      | some text => .ok text
      | none => if Paths.isUrl source then http source else .error (noFetcher source) := by
  have handled : content.has source = (content.get source).isSome := by rw [ContentMap.has,ContentMap.get,Option.isSome_map]
  simp only [withFetcher,PlatformDownloader.downloader,buildFetcher,CompositeFetcher,List.any_cons,List.any_nil,Bool.or_false,fetchFirst,
    PreFetchedContentFetcher,handled]
  cases content.get source with
  | none => by_cases url : Paths.isUrl source = true <;> simp [url]
  | some text => rfl

theorem map_read (r : Runtime) (content : ContentMap) (patterns : FilterDownloader) (source : Text) :
    (withFetcher r (PreFetchedContentFetcher content) patterns).platformDownloader.downloader.read source =
      match content.get source with
      | some text => .ok text
      | none => .error (noFetcher source) := by
  have handled : content.has source = (content.get source).isSome := by rw [ContentMap.has,ContentMap.get,Option.isSome_map]
  simp only [withFetcher,PlatformDownloader.downloader,PreFetchedContentFetcher,handled]
  cases content.get source <;> rfl

end Reading

section Compiling
variable (one two : Runtime)

theorem compile_same (now : Header.Date) (configuration : Configuration)
    (downloads : ∀ source ∈ configuration.sources, WorkerCompiler.download one source = WorkerCompiler.download two source)
    (stages : ∀ rules transformations, transform (pipeline one) rules configuration.toFilterable transformations =
      transform (pipeline two) rules configuration.toFilterable transformations)
    (urls : one.isURL = two.isURL) (schemes : one.url = two.url) (digests : one.digest = two.digest) :
    WorkerCompiler.compileWithMetrics one now configuration = WorkerCompiler.compileWithMetrics two now configuration := by
  have sources : ∀ source ∈ configuration.sources,
      WorkerCompiler.compileSource one configuration source = WorkerCompiler.compileSource two configuration source := by
    intro source member
    rw [WorkerCompiler.compileSource,WorkerCompiler.compileSource,downloads source member]
    simp only [WorkerCompiler.applySourceTransformations,stages]
  have headed : ∀ list : List Source, (∀ source ∈ list, source ∈ configuration.sources) →
      (list.mapM fun source => (WorkerCompiler.compileSource one configuration source).map (Header.generateSourceHeader source ++ ·)) =
        list.mapM fun source => (WorkerCompiler.compileSource two configuration source).map (Header.generateSourceHeader source ++ ·) := by
    intro list inside
    induction list with
    | nil => rfl
    | cons source rest ih =>
      obtain ⟨first,others⟩ := List.forall_mem_cons.mp inside
      rw [List.mapM_cons,List.mapM_cons,sources source first,ih others]
  have lists : compileLists one (WorkerCompiler.compileSource one configuration) configuration =
      compileLists two (WorkerCompiler.compileSource two configuration) configuration := by
    rw [compileLists,compileLists,headed configuration.sources fun _ member => member]
    simp only [stages]
  have assembled : assemble one now configuration = assemble two now configuration := by
    funext finalList
    simp only [assemble,addChecksumToHeader,calculateChecksum,digests]
  rw [WorkerCompiler.compileWithMetrics,WorkerCompiler.compileWithMetrics,lists,urls,schemes,assembled]

end Compiling

section Offline
variable (r : Runtime) (content : ContentMap)

def offline : Runtime := { withFetcher r (PreFetchedContentFetcher content) r.patternDownloader with browserFetch := none }

-- What the compiler may reach outside: URLs, the network and a browser, and
-- the downloader that its filter has for lists of patterns.
structure Network where
  parse : Text → Option HttpFetcher.URL
  request : Text → HttpFetcher.RequestInit → Except Thrown HttpFetcher.Response
  options : HttpFetcher.HttpFetcherOptions
  connect : Option BrowserConnector
  patterns : FilterDownloader

def online (network : Network) : Runtime :=
  { withFetcher r (buildFetcher none (some content) (httpFetcher network.parse network.request network.options)) network.patterns with
    browserFetch := network.connect.map fun connect => (BrowserFetcher network.parse connect).fetch }

-- Every document that the sources open was fetched before, and no source asks
-- for a browser, which the content is not asked for.
structure Complete (configuration : Configuration) : Prop where
  held : ∀ source ∈ configuration.sources, ∀ entry ∈ (offline r content).platformDownloader.downloader.opened source.source,
    content.has entry.1 = true
  plain : ∀ source ∈ configuration.sources, source.useBrowser.getD false = false

theorem glob_local (s : FilterService) (download : Text → Except Thrown (List Text)) (pattern : Text) :
    globPieces { s with download := download } pattern = globPieces s pattern := by
  fun_induction globPieces s pattern with
  | case1 => rfl
  | case2 rest ih => rw [globPieces,ih]
  | case3 rest single ih =>
    rw [globPieces,ih]
    exact single
  | case4 c rest doubled other ih =>
    rw [globPieces,ih]
    · exact doubled
    · exact other

theorem wildcard_local (s : FilterService) (download : Text → Except Thrown (List Text)) :
    newWildcard { s with download := download } = newWildcard s := by
  funext pattern
  have globs : globTest { s with download := download } pattern = globTest s pattern := by
    funext str
    rw [globTest,globTest,glob_local]
  rw [newWildcard,newWildcard,globs]

theorem prepare_local (s : FilterService) (download : Text → Except Thrown (List Text)) (rules sources : Option (List Text))
    (none_ : sources.getD [] = []) : prepareWildcards { s with download := download } rules sources = prepareWildcards s rules sources := by
  rw [prepareWildcards,prepareWildcards,if_pos none_,if_pos none_,wildcard_local]

theorem transform_local (pipeline : TransformationPipeline) (download : Text → Except Thrown (List Text)) (rules : List Text)
    {configuration : Filterable} (transformations : List TransformationType) (exclusions : configuration.exclusions_sources.getD [] = [])
    (inclusions : configuration.inclusions_sources.getD [] = []) :
    transform { pipeline with filterService := { pipeline.filterService with download := download } } rules configuration transformations =
      transform pipeline rules configuration transformations := by
  have filters : filterRules { pipeline with filterService := { pipeline.filterService with download := download } } rules configuration =
      filterRules pipeline rules configuration := by
    simp only [filterRules,applyExclusions,applyInclusions,applyPatternFilter,prepare_local _ _ _ _ exclusions,prepare_local _ _ _ _ inclusions]
  have stages : ∀ types lines, applyTransformations { pipeline with filterService := { pipeline.filterService with download := download } } types lines =
      applyTransformations pipeline types lines := by
    intro types
    induction types with
    | nil =>
      intro lines
      rfl
    | cons type rest ih =>
      intro lines
      simp only [applyTransformations,ih]
  rw [transform,transform,filters,funext (stages _)]

theorem download_local (network : Network) (complete : Complete r content configuration) (member : source ∈ configuration.sources) :
    WorkerCompiler.download (online r content network) source = WorkerCompiler.download (offline r content) source := by
  rw [plain_download _ (complete.plain source member),plain_download _ (complete.plain source member)]
  have same : settled id ((online r content network).platformDownloader.downloader.download source.source) =
      settled id ((offline r content).platformDownloader.downloader.download source.source) := by
    apply Download.download_same id (online r content network).platformDownloader.downloader
      (offline r content).platformDownloader.downloader rfl
    intro entry opened
    have held := complete.held source member entry opened
    rw [ContentMap.has,Option.isSome_iff_exists] at held
    obtain ⟨row,found⟩ := held
    have text : content.get entry.1 = some row.2 := by rw [ContentMap.get,found,Option.map_some]
    have read : (online r content network).platformDownloader.downloader.read entry.1 =
        (offline r content).platformDownloader.downloader.read entry.1 :=
      (chain_read r content (httpFetcher network.parse network.request network.options).fetch network.patterns entry.1).trans
        ((by rw [text] : _ = _).trans (map_read r content r.patternDownloader entry.1).symm)
    have steps (items : List Piece) := steps_same id (online r content network).platformDownloader.downloader
      (offline r content).platformDownloader.downloader entry.2 entry.1 items fun _ _ => rfl
    rw [Downloader.outline,Downloader.outline,read]
    simp only [steps]
    rfl
  have whole (outcome : Outcome (List Text)) : (settled id outcome).1 = outcome.1 := by
    obtain ⟨result,visited⟩ := outcome
    cases result <;> rfl
  rw [← whole,same,whole]

-- A compilation whose sources were fetched before, with all they include, and
-- whose patterns are its own, makes the same of every network and of none.
theorem compile_hermetic (network : Network) (now : Header.Date) (configuration : Configuration)
    (complete : Complete r content configuration) (exclusions : configuration.exclusions_sources.getD [] = [])
    (inclusions : configuration.inclusions_sources.getD [] = []) :
    WorkerCompiler.compileWithMetrics (online r content network) now configuration =
      WorkerCompiler.compileWithMetrics (offline r content) now configuration := by
  have stages : ∀ rules transformations, transform (pipeline (online r content network)) rules configuration.toFilterable transformations =
      transform (pipeline (offline r content)) rules configuration.toFilterable transformations := fun rules transformations =>
    transform_local (pipeline (offline r content)) (fun source => (network.patterns.downloader.download source).1) rules transformations
      exclusions inclusions
  exact compile_same (online r content network) (offline r content) now configuration
    (fun source member => download_local r content network complete member) stages rfl rfl rfl

end Offline

-- A list that was fetched before, and a network that answers nothing.
def oneFetched : ContentMap := ⟨[("https://lists.example/a.txt".toList,"||ads.example^".toList)],List.nodup_singleton _⟩
def silent : Network := ⟨fun _ => none,fun _ _ => .error [],⟨0,[],false,[]⟩,none,plainLists⟩

theorem oneFetched_hermetic :
    WorkerCompiler.compileWithMetrics (online conditional oneFetched silent) epoch (configured none unfiltered) =
      WorkerCompiler.compileWithMetrics (offline conditional oneFetched) epoch (configured none unfiltered) := by
  refine compile_hermetic conditional oneFetched silent epoch (configured none unfiltered) ⟨?_,?_⟩ rfl rfl
  · intro source member
    obtain rfl := List.mem_singleton.mp member
    decide +kernel
  · intro source member
    obtain rfl := List.mem_singleton.mp member
    rfl

end AdblockCompiler.PreFetched
