import AdblockCompiler.Compilers

-- IncrementalCompiler: a cache of raw downloads in front of FilterCompiler.
namespace AdblockCompiler.Incremental
open JsText Config Header Pipeline Compilers

inductive SourceType where
  | Adblock | Hosts
  deriving DecidableEq, Repr

def SourceType.text : SourceType → Text
  | .Adblock => "adblock".toList
  | .Hosts => "hosts".toList

def transformationText : TransformationType → Text
  | .RemoveComments => "RemoveComments".toList
  | .Compress => "Compress".toList
  | .RemoveModifiers => "RemoveModifiers".toList
  | .Validate => "Validate".toList
  | .ValidateAllowIp => "ValidateAllowIp".toList
  | .Deduplicate => "Deduplicate".toList
  | .InvertAllow => "InvertAllow".toList
  | .RemoveEmptyLines => "RemoveEmptyLines".toList
  | .TrimLines => "TrimLines".toList
  | .InsertFinalNewLine => "InsertFinalNewLine".toList
  | .ConvertToAscii => "ConvertToAscii".toList
  | .ConflictDetection => "ConflictDetection".toList
  | .RuleOptimizer => "RuleOptimizer".toList

-- A source as the object it is passed as: with its type, and with the property
-- _precompiled where it has one.
structure SourceObject extends Source where
  type : Option SourceType := none
  precompiled : Option (List Text) := none

structure ConfigurationObject where
  plain : Configuration
  sources : List SourceObject
  same : plain.sources = sources.map SourceObject.toSource

-- The schema of a source is strict: a property it does not know is refused.
def ConfigurationObject.accepted (r : Runtime) (configuration : ConfigurationObject) : Bool :=
  ConfigurationSchema.accepts r.isURL r.url configuration.plain && configuration.sources.all fun source => source.precompiled.isNone

def unknownProperty (place : Nat) : Text :=
  "/sources/".toList ++ (toString place).toList ++ "/_precompiled: unknown property: _precompiled".toList

def unknownProperties (sources : List SourceObject) : List Text :=
  (sources.zipIdx.filter fun part => part.1.precompiled.isSome).map fun part => unknownProperty part.2

-- The text of a configuration with other faults is left to the validator.
def ConfigurationObject.errorsText (r : Runtime) (configuration : ConfigurationObject) : Text :=
  if ConfigurationSchema.accepts r.isURL r.url configuration.plain then ['\n'].intercalate (unknownProperties configuration.sources)
  else r.errorsText configuration.plain

-- FilterCompiler.compile, on objects.
def fullCompile (r : Runtime) (now : Date) (configuration : ConfigurationObject) : Except Failure (List Text) :=
  Except.mapError compilationError <|
    if configuration.accepted r = false then .error ⟨.configuration,configuration.errorsText r⟩
    else (compileLists r (SourceCompiler.compile r) configuration.plain).map (assemble r now configuration.plain)

structure SourceCacheEntry where
  source : Text
  contentHash : Text
  rules : List Text
  timestamp : Int

abbrev Cache := Text → Option SourceCacheEntry

def Cache.set (cache : Cache) (cacheKey : Text) (entry : SourceCacheEntry) : Cache :=
  fun other => if other = cacheKey then some entry else cache other

structure IncrementalCompilerOptions where
  maxCacheAge : Int := 3600000
  forceRefresh : List Text := []

def getCacheKey (source : SourceObject) : Text :=
  let transformations := [','].intercalate ((source.transformations.getD []).map transformationText)
  "source:".toList ++ source.source ++ ':' :: (source.type.getD .Adblock).text ++ ':' :: transformations

structure SourceResult where
  source : SourceObject
  rules : List Text
  fromCache : Bool

-- served and fetched are history: the places of the sources that were taken
-- from the cache, and of those that were downloaded.
structure Progress where
  cache : Cache
  served : List Nat
  fetched : List Nat
  recompiledSources : List Text
  cachedSources : List Text
  timeSavedMs : Nat

structure IncrementalCompilationResult where
  rules : List Text
  recompiledSources : List Text
  cachedSources : List Text
  timeSavedMs : Nat

section Compiling
variable (r : Runtime) (options : IncrementalCompilerOptions) (hashContent : List Text → Text)

-- Date.now() as a source is looked up in the cache, and as it is put there.
variable (clock stamp : Nat → Int)

def shouldRecompile (now : Int) (source : SourceObject) (cached : SourceCacheEntry) : Bool :=
  options.forceRefresh.contains source.source || decide (options.maxCacheAge < now-cached.timestamp)

def compileSource (source : SourceObject) : Except Failure (List Text) :=
  match (r.patternDownloader.downloader.download source.source).1 with
  | .ok rules => .ok rules
  | .error thrown => .error ⟨.other,thrown⟩

-- A stale entry stands in for a download that fails.
def recompile (place : Nat) (source : SourceObject) (cached : Option SourceCacheEntry) (p : Progress) :
    Except Failure SourceResult × Progress :=
  let begun := { p with recompiledSources := p.recompiledSources ++ [source.source],fetched := place :: p.fetched }
  match compileSource r source,cached with
  | .ok rules,_ =>
    (.ok ⟨source,rules,false⟩,
      { begun with cache := begun.cache.set (getCacheKey source) ⟨source.source,hashContent rules,rules,stamp place⟩ })
  | .error _,some entry => (.ok ⟨source,entry.rules,true⟩,{ begun with cachedSources := begun.cachedSources ++ [source.source] })
  | .error failure,none => (.error failure,begun)

def useCached (place : Nat) (source : SourceObject) (entry : SourceCacheEntry) (p : Progress) : SourceResult × Progress :=
  (⟨source,entry.rules,true⟩,
    { p with
      served := place :: p.served
      cachedSources := p.cachedSources ++ [source.source]
      timeSavedMs := p.timeSavedMs+500 })

def processSource (place : Nat) (source : SourceObject) (p : Progress) : Except Failure SourceResult × Progress :=
  match p.cache (getCacheKey source) with
  | some entry =>
    if shouldRecompile options (clock place) source entry then recompile r hashContent stamp place source (some entry) p
    else
      let used := useCached place source entry p
      (.ok used.1,used.2)
  | none => recompile r hashContent stamp place source none p

def processSources (place : Nat) : List SourceObject → Progress → Except Failure (List SourceResult) × Progress
  | [],p => (.ok [],p)
  | source :: rest,p =>
    match processSource r options hashContent clock stamp place source p with
    | (.error failure,p) => (.error failure,p)
    | (.ok result,p) =>
      match processSources (place+1) rest p with
      | (.error failure,p) => (.error failure,p)
      | (.ok results,p) => (.ok (result :: results),p)

def SourceResult.object (result : SourceResult) : SourceObject := { result.source with precompiled := some result.rules }

-- The configuration with its sources overridden.
def ConfigurationObject.precompiled (configuration : ConfigurationObject) (results : List SourceResult) : ConfigurationObject where
  plain := { configuration.plain with sources := (results.map SourceResult.object).map SourceObject.toSource }
  sources := results.map SourceResult.object
  same := rfl

def compileWithMetrics (now : Date) (configuration : ConfigurationObject) (cache : Cache) :
    Except Failure IncrementalCompilationResult × Progress :=
  match processSources r options hashContent clock stamp 0 configuration.sources ⟨cache,[],[],[],[],0⟩ with
  | (.error failure,p) => (.error failure,p)
  | (.ok results,p) =>
    let object := configuration.precompiled results
    -- A configuration that is accepted has all its sources downloaded.
    let after := if object.accepted r then { p with fetched := List.range object.sources.length ++ p.fetched } else p
    ((fullCompile r now object).map fun rules => ⟨rules,p.recompiledSources,p.cachedSources,p.timeSavedMs⟩,after)

def compile (now : Date) (configuration : ConfigurationObject) (cache : Cache) : Except Failure (List Text) × Progress :=
  let compiled := compileWithMetrics r options hashContent clock stamp now configuration cache
  (compiled.1.map IncrementalCompilationResult.rules,compiled.2)

end Compiling

variable {r : Runtime} {options : IncrementalCompilerOptions} {hashContent : List Text → Text} {clock stamp : Nat → Int}

-- Without the property, an object is compiled as its plain configuration is.
theorem fullCompile_plain {configuration : ConfigurationObject} (plain : ∀ source ∈ configuration.sources, source.precompiled = none)
    (now : Date) : fullCompile r now configuration = FilterCompiler.compileWithMetrics r now configuration.plain := by
  have strict : (configuration.sources.all fun source => source.precompiled.isNone) = true := by
    rw [List.all_eq_true]
    intro source member
    rw [plain source member]
    rfl
  unfold fullCompile FilterCompiler.compileWithMetrics ConfigurationObject.accepted ConfigurationObject.errorsText
  rw [strict,Bool.and_true]
  cases accepted : ConfigurationSchema.accepts r.isURL r.url configuration.plain with
  | true => rfl
  | false => rfl

theorem recompile_source (ran : recompile r hashContent stamp place source cached p = (.ok result,q)) : result.source = source := by
  unfold recompile at ran
  split at ran
  · cases ran; rfl
  · cases ran; rfl
  · cases ran

theorem processSource_source (ran : processSource r options hashContent clock stamp place source p = (.ok result,q)) :
    result.source = source := by
  unfold processSource at ran
  split at ran
  · split at ran
    · exact recompile_source ran
    · cases ran; rfl
  · exact recompile_source ran

theorem processSources_sources (ran : processSources r options hashContent clock stamp place sources p = (.ok results,q)) :
    results.map SourceResult.source = sources := by
  induction sources generalizing place p results with
  | nil =>
    cases ran
    rfl
  | cons source rest ih =>
    rw [processSources] at ran
    split at ran
    · cases ran
    · rename_i result middle first
      split at ran
      · cases ran
      · rename_i others last later
        cases ran
        rw [List.map_cons,processSource_source first,ih later]

theorem precompiled_plain {configuration : ConfigurationObject} (sources : results.map SourceResult.source = configuration.sources) :
    (configuration.precompiled results).plain = configuration.plain := by
  have same : (results.map SourceResult.object).map SourceObject.toSource = configuration.plain.sources := by
    rw [configuration.same,← sources,List.map_map,List.map_map]
    rfl
  unfold ConfigurationObject.precompiled
  dsimp only
  rw [same]

-- No place below the bound is both served and fetched, and none above is either.
structure Apart (bound : Nat) (p : Progress) : Prop where
  disjoint : ∀ place ∈ p.served, place ∉ p.fetched
  served : ∀ place ∈ p.served, place < bound
  fetched : ∀ place ∈ p.fetched, place < bound

theorem apart_served (apart : Apart place p) (same : q.served = place :: p.served) (fetched : q.fetched = p.fetched) :
    Apart (place+1) q := by
  refine ⟨?_,?_,?_⟩
  · rw [same,fetched]
    intro other member
    rcases List.mem_cons.mp member with new | old
    · intro before
      exact Nat.lt_irrefl place (new ▸ apart.fetched other before)
    · exact apart.disjoint other old
  · rw [same]
    exact List.forall_mem_cons.mpr ⟨Nat.lt_succ_self place,fun other old => Nat.lt_succ_of_lt (apart.served other old)⟩
  · rw [fetched]
    exact fun other old => Nat.lt_succ_of_lt (apart.fetched other old)

theorem apart_fetched (apart : Apart place p) (same : q.fetched = place :: p.fetched) (served : q.served = p.served) :
    Apart (place+1) q := by
  refine ⟨?_,?_,?_⟩
  · rw [same,served]
    intro other member
    rw [List.mem_cons,not_or]
    exact ⟨Nat.ne_of_lt (apart.served other member),apart.disjoint other member⟩
  · rw [served]
    exact fun other old => Nat.lt_succ_of_lt (apart.served other old)
  · rw [same]
    exact List.forall_mem_cons.mpr ⟨Nat.lt_succ_self place,fun other old => Nat.lt_succ_of_lt (apart.fetched other old)⟩

theorem recompile_apart (apart : Apart place p) : Apart (place+1) (recompile r hashContent stamp place source cached p).2 := by
  unfold recompile
  split
  · exact apart_fetched apart rfl rfl
  · exact apart_fetched apart rfl rfl
  · exact apart_fetched apart rfl rfl

theorem processSource_apart (apart : Apart place p) :
    Apart (place+1) (processSource r options hashContent clock stamp place source p).2 := by
  unfold processSource
  split
  · split
    · exact recompile_apart apart
    · exact apart_served apart rfl rfl
  · exact recompile_apart apart

theorem processSources_apart (apart : Apart place p) :
    ∃ bound, Apart bound (processSources r options hashContent clock stamp place sources p).2 := by
  induction sources generalizing place p with
  | nil => exact ⟨place,apart⟩
  | cons source rest ih =>
    have first : Apart (place+1) (processSource r options hashContent clock stamp place source p).2 := processSource_apart apart
    rw [processSources]
    split
    · rename_i failed
      rw [failed] at first
      exact ⟨place+1,first⟩
    · rename_i went
      rw [went] at first
      have later := ih first
      split
      · rename_i failed
        rw [failed] at later
        exact later
      · rename_i ends
        rw [ends] at later
        exact later

-- What incremental compilation promises: the rules of full compilation, but for
-- the lines the clock decides, and no download of a source taken from the cache.
structure Equivalent (r : Runtime) (options : IncrementalCompilerOptions) (hashContent : List Text → Text)
    (clock stamp : Nat → Int) (now later : Date) (configuration : ConfigurationObject) (cache : Cache) : Prop where
  rules : ∀ rules, fullCompile r now configuration = .ok rules →
    ∃ output, (compile r options hashContent clock stamp later configuration cache).1 = .ok output ∧ ruleLines output = ruleLines rules
  spared : ∀ place ∈ (compile r options hashContent clock stamp later configuration cache).2.served,
    place ∉ (compile r options hashContent clock stamp later configuration cache).2.fetched

theorem accepted_exact {configuration : ConfigurationObject} : configuration.accepted r = true ↔
    ConfigurationSchema.accepts r.isURL r.url configuration.plain = true ∧ ∀ source ∈ configuration.sources, source.precompiled = none := by
  simp [ConfigurationObject.accepted]

theorem accepts_sources (accepts : ConfigurationSchema.accepts isURL url configuration = true) : configuration.sources ≠ [] := by
  intro empty
  rw [ConfigurationSchema.accepts,empty] at accepts
  simp at accepts

-- The overridden configuration is always refused.
theorem precompiled_refused {configuration : ConfigurationObject} (valid : configuration.accepted r = true)
    (sources : results.map SourceResult.source = configuration.sources) : (configuration.precompiled results).accepted r = false := by
  have nonempty := accepts_sources (accepted_exact.mp valid).1
  rw [configuration.same,← sources] at nonempty
  cases results with
  | nil => exact absurd rfl nonempty
  | cons result rest =>
    rw [← Bool.not_eq_true,accepted_exact]
    intro accepted
    have none := accepted.2 result.object List.mem_cons_self
    cases none

theorem compile_rejects (valid : configuration.accepted r = true) (now : Date) (cache : Cache) :
    ∃ failure, (compile r options hashContent clock stamp now configuration cache).1 = .error failure := by
  unfold compile compileWithMetrics
  split
  · rename_i failure _ _
    exact ⟨failure,rfl⟩
  · rename_i results p ran
    have refused := precompiled_refused valid (processSources_sources ran)
    dsimp only
    rw [fullCompile,if_pos refused]
    exact ⟨_,rfl⟩

theorem compile_spares (valid : configuration.accepted r = true) (now : Date) (cache : Cache) :
    ∃ bound, Apart bound (compile r options hashContent clock stamp now configuration cache).2 := by
  have nothing : Apart 0 ⟨cache,[],[],[],[],0⟩ :=
    ⟨fun _ member => absurd member List.not_mem_nil,fun _ member => absurd member List.not_mem_nil,
      fun _ member => absurd member List.not_mem_nil⟩
  have looped : ∃ bound, Apart bound
      (processSources r options hashContent clock stamp 0 configuration.sources ⟨cache,[],[],[],[],0⟩).2 :=
    processSources_apart nothing
  obtain ⟨bound,apart⟩ := looped
  refine ⟨bound,?_⟩
  unfold compile compileWithMetrics
  split
  · rename_i failed
    rw [failed] at apart
    exact apart
  · rename_i results p ran
    rw [ran] at apart
    have refused := precompiled_refused valid (processSources_sources ran)
    dsimp only
    rw [refused]
    exact apart

-- The promise is kept for no configuration that full compilation compiles.
theorem incremental_exact {configuration : ConfigurationObject} (valid : configuration.accepted r = true) (now later : Date)
    (cache : Cache) : Equivalent r options hashContent clock stamp now later configuration cache ↔
      ∀ rules, fullCompile r now configuration ≠ .ok rules := by
  constructor
  · intro promised rules compiled
    obtain ⟨output,resolved,-⟩ := promised.rules rules compiled
    obtain ⟨failure,rejected⟩ : ∃ failure, (compile r options hashContent clock stamp later configuration cache).1 = .error failure :=
      compile_rejects valid later cache
    rw [resolved] at rejected
    cases rejected
  · intro never
    have spared : ∃ bound, Apart bound (compile r options hashContent clock stamp later configuration cache).2 :=
      compile_spares valid later cache
    obtain ⟨bound,apart⟩ := spared
    exact ⟨fun rules compiled => absurd compiled (never rules),apart.disjoint⟩

theorem unknownProperties_all (results : List SourceResult) :
    unknownProperties (results.map SourceResult.object) = (List.range results.length).map unknownProperty := by
  have all : ((results.map SourceResult.object).zipIdx.filter fun part => part.1.precompiled.isSome) =
      (results.map SourceResult.object).zipIdx := by
    rw [List.filter_eq_self]
    intro part member
    obtain ⟨result,-,same⟩ := List.mem_map.mp (List.fst_mem_of_mem_zipIdx member)
    rw [← same]
    rfl
  have places : (results.map SourceResult.object).zipIdx.map Prod.snd = List.range results.length := by
    rw [List.zipIdx_map_snd,List.length_map,List.range_eq_range']
  rw [unknownProperties,all,← places,List.map_map]
  rfl

-- What it is refused with names the property of every source.
theorem refusal_text {configuration : ConfigurationObject} (valid : configuration.accepted r = true)
    (sources : results.map SourceResult.source = configuration.sources) (now : Date) :
    fullCompile r now (configuration.precompiled results) =
      .error ⟨.configuration,['\n'].intercalate ((List.range results.length).map unknownProperty)⟩ := by
  have accepts := (accepted_exact.mp valid).1
  rw [← precompiled_plain sources] at accepts
  rw [fullCompile,if_pos (precompiled_refused valid sources),ConfigurationObject.errorsText,if_pos accepts]
  change Except.mapError compilationError (.error ⟨.configuration,['\n'].intercalate (unknownProperties (results.map SourceResult.object))⟩) = _
  rw [unknownProperties_all]
  rfl

-- What the cache holds for a source that is not downloaded again is what its
-- download gives.
def Unchanged (r : Runtime) (options : IncrementalCompilerOptions) (clock : Nat → Int) (configuration : ConfigurationObject)
    (cache : Cache) : Prop :=
  ∀ (place : Nat) (source : SourceObject) (entry : SourceCacheEntry), configuration.sources[place]? = some source →
    cache (getCacheKey source) = some entry → shouldRecompile options (clock place) source entry = false →
    compileSource r source = .ok entry.rules

def oneSource : ConfigurationObject := ⟨configured none noAds,[{ toSource := noAds }],rfl⟩

theorem oneSource_compiled : ∃ rules, fullCompile twoHosts epoch oneSource = .ok rules := by
  have some : (fullCompile twoHosts epoch oneSource).toOption.isSome = true := by decide +kernel
  cases compiled : fullCompile twoHosts epoch oneSource with
  | ok rules => exact ⟨rules,rfl⟩
  | error failure =>
    rw [compiled] at some
    cases some

theorem oneSource_differs : ∃ rules, fullCompile twoHosts epoch oneSource = .ok rules ∧
    ¬Equivalent twoHosts {} List.flatten (fun _ => 0) (fun _ => 0) epoch epoch oneSource fun _ => none := by
  obtain ⟨rules,compiled⟩ := oneSource_compiled
  refine ⟨rules,compiled,?_⟩
  intro promised
  exact (incremental_exact (by decide) epoch epoch _).mp promised rules compiled

theorem oneSource_rejected : ¬∀ (r : Runtime) (options : IncrementalCompilerOptions) (hashContent : List Text → Text)
    (clock stamp : Nat → Int) (now later : Date) (configuration : ConfigurationObject) (cache : Cache),
    configuration.accepted r = true → Unchanged r options clock configuration cache →
    Equivalent r options hashContent clock stamp now later configuration cache := by
  intro always
  obtain ⟨rules,compiled⟩ := oneSource_compiled
  have valid : oneSource.accepted twoHosts = true := by decide
  have unchanged : Unchanged twoHosts {} (fun _ => 0) oneSource fun _ => none := by
    intro place source entry found cached
    cases cached
  have promised := always twoHosts {} List.flatten (fun _ => 0) (fun _ => 0) epoch epoch oneSource (fun _ => none) valid unchanged
  obtain ⟨output,resolved,-⟩ := promised.rules rules compiled
  obtain ⟨failure,rejected⟩ : ∃ failure, (compile twoHosts {} List.flatten (fun _ => 0) (fun _ => 0) epoch oneSource
      fun _ => none).1 = .error failure := compile_rejects valid epoch _
  rw [resolved] at rejected
  cases rejected

end AdblockCompiler.Incremental
