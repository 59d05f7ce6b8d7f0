import AdblockCompiler.Compilers
import AdblockCompiler.Promises
import AdblockCompiler.SharedRegistry

-- The sources of a configuration compiled at the same time through one pipeline
-- and one registry.
namespace AdblockCompiler.Scheduling
open JsText Config Pipeline Header Compilers Promises SharedRegistry

-- How often a download, the hooks around a transformation and the digest of
-- the output let other code run before they go on.
structure Awaits where
  download : Text → Nat
  hooks : TransformationType → Nat
  checksum : Nat

abbrev RulesPromise := Promise Instances Failure (List Text)

def rethrow (f : Failure → Failure) (failure : Failure) : RulesPromise := .settled (.error (f failure))

-- What is made of the rules once the lists of patterns are there.
def filterBy (s : FilterService) (rules : List Text) (patterns : Option (List Text)) (mode : FilterMode) (downloadedList : List Text) :
    Except Failure (List Text) :=
  let uniqueRules := (patterns.getD [] ++ downloadedList).eraseDups.filter (· ≠ [])
  ((uniqueRules.mapM (newWildcard s)).mapError (⟨.other,·⟩)).map fun wildcards =>
    if wildcards.isEmpty then rules
    else
      match mode with
      | .exclude => rules.filter fun rule => !matchesPattern wildcards rule
      | .include => rules.filter (matchesPattern wildcards)

section Compilation
variable (r : Runtime) (registered : Registered) (awaits : Awaits)

-- The runtime with the pure transformations of the registry.
def alone : Runtime := { r with registry := registry registered }

-- Every download is made by a FilterDownloader of its own: until it settles it
-- touches nothing that is shared.
def downloadList (source : Text) : RulesPromise :=
  (Promise.settled (Pipeline.downloadList (pipeline r).filterService source)).pause (awaits.download source)

def downloadAll (sources : List Text) : RulesPromise :=
  .all (sources.map (downloadList r awaits)) (fun results => .settled (.ok results.flatten)) (rethrow id)

def applyPatternFilter (rules : List Text) (patterns patternSources : Option (List Text)) (mode : FilterMode) : RulesPromise :=
  if patterns.getD [] = [] ∧ patternSources.getD [] = [] then .settled (.ok rules)
  else
    let downloadedList := if patternSources.getD [] = [] then .settled (.ok []) else downloadAll r awaits (patternSources.getD [])
    downloadedList.thenDo (fun list => .settled (filterBy (pipeline r).filterService rules patterns mode list)) (rethrow id)

-- execute of a SyncTransformation is one section: it reads and writes the
-- instance without letting other code run. The sections are no longer than in
-- the code, so that there are at least its schedules.
def applyTransformations : List TransformationType → List Text → RulesPromise
  | [],transformed => .settled (.ok transformed)
  | type :: rest,transformed =>
    match get registered type with
    | none => applyTransformations rest transformed
    | some transformation =>
      .pause (awaits.hooks type) <|
        .awaiting (fun fields => (transformation fields transformed).1) fun fields =>
          match (transformation fields transformed).2 with
          | .error thrown => (rethrow id ⟨.other,thrown⟩).pause (awaits.hooks type)
          | .ok result => (applyTransformations rest result).pause (awaits.hooks type)

def transform (rules : List Text) (configuration : Filterable) (transformations : List TransformationType) : RulesPromise :=
  (applyPatternFilter r awaits rules configuration.exclusions configuration.exclusions_sources .exclude).thenDo (fun transformed =>
    (applyPatternFilter r awaits transformed configuration.inclusions configuration.inclusions_sources .include).thenDo
      (applyTransformations registered awaits (getOrderedTransformations transformations)) (rethrow id)) (rethrow id)

def downloadSource (source : Source) : RulesPromise :=
  (Promise.settled ((download r source.source).mapError (sourceDownloadError source.source))).pause (awaits.download source.source)

def SourceCompiler.compile (source : Source) : RulesPromise :=
  let compiling := (downloadSource r awaits source).thenDo (fun downloaded =>
    let rules := stripUpstreamHeaders downloaded
    let transformations := source.transformations.getD []
    if transformations.length > 0 then transform r registered awaits rules source.toFilterable transformations else .settled (.ok rules))
    (rethrow id)
  compiling.thenDo (fun rules => .settled (.ok rules)) (rethrow sourceError)

-- Promise.all gives the rules back in the order of the sources.
def combine (configuration : Configuration) (sourceResults : List (List Text)) : List Text :=
  (List.zipWith (fun source rules => generateSourceHeader source ++ rules) configuration.sources sourceResults).flatten

def FilterCompiler.compileWithMetrics (now : Date) (configuration : Configuration) : RulesPromise :=
  let compiling : RulesPromise :=
    if ConfigurationSchema.accepts r.isURL r.url configuration = false then
      .settled (.error ⟨.configuration,r.errorsText configuration⟩)
    else
      .all (configuration.sources.map (SourceCompiler.compile r registered awaits)) (fun sourceResults =>
        (transform r registered awaits (combine configuration sourceResults) configuration.toFilterable
          (configuration.transformations.getD [])).thenDo
          (fun finalList => (Promise.settled (.ok (assemble r now configuration finalList))).pause awaits.checksum) (rethrow id))
        (rethrow id)
  compiling.thenDo (fun rules => .settled (.ok rules)) (rethrow compilationError)

end Compilation

-- What a list of fallible results comes to.
section Results

theorem toOption_exact {result : Except ε α} : result.toOption = some a ↔ result = .ok a := by
  cases result <;> simp [Except.toOption]

theorem bind_exact {result : Except ε α} {f : α → Except ε β} : result.bind f = .ok b ↔ ∃ a, result = .ok a ∧ f a = .ok b := by
  cases result <;> simp [Except.bind]

theorem mapM_exact {items : List β} {g : β → Except ε α} :
    items.mapM g = .ok results ↔ List.Forall₂ (fun item result => g item = .ok result) items results := by
  induction items generalizing results with
  | nil =>
    rw [List.forall₂_nil_left_iff]
    constructor
    · intro found
      cases found
      rfl
    · rintro rfl
      rfl
  | cons item items ih =>
    rw [List.mapM_cons,List.forall₂_cons_left_iff]
    constructor
    · intro found
      cases own : g item with
      | error e =>
        rw [own] at found
        cases found
      | ok a =>
        cases others : items.mapM g with
        | error e =>
          rw [own,others] at found
          cases found
        | ok rest =>
          rw [own,others] at found
          cases found
          exact ⟨a,rest,rfl,ih.mp others,rfl⟩
    · intro parts
      obtain ⟨a,rest,own,others,rfl⟩ := parts
      rw [own,ih.mpr others]
      rfl

theorem mapM_gathered {items : List β} {g : β → Except ε α} (same : (items.map fun item => (g item).toOption) = results.map some) :
    items.mapM g = .ok results := by
  have both : List.Forall₂ Eq (items.map fun item => (g item).toOption) (results.map some) := List.forall₂_eq_eq_eq ▸ same
  rw [List.forall₂_map_left_iff,List.forall₂_map_right_iff] at both
  exact mapM_exact.mpr (both.imp fun _ _ => toOption_exact.mp)

theorem mapM_refused {items : List β} {g : β → Except ε α} (refused : none ∈ items.map fun item => (g item).toOption) :
    (items.mapM g).toOption = none := by
  induction items with
  | nil => cases refused
  | cons item items ih =>
    rw [List.mapM_cons]
    cases own : g item with
    | error e => rfl
    | ok a =>
      rw [List.map_cons,own] at refused
      rcases List.mem_cons.mp refused with here | later
      · cases here
      · have rest := ih later
        cases others : items.mapM g with
        | error e => rfl
        | ok results =>
          rw [others] at rest
          cases rest

theorem mapM_zip {items : List β} (g : β → Except ε α) (h : β → α → α) :
    items.mapM (fun item => (g item).map (h item)) = (items.mapM g).map (List.zipWith h items) := by
  induction items with
  | nil => rfl
  | cons item items ih =>
    rw [List.mapM_cons,List.mapM_cons,ih]
    cases g item with
    | error e => rfl
    | ok a => cases items.mapM g <;> rfl

end Results

-- Each promise comes to what the compilation of one source after the other
-- returns, none for any failure.
section Outcomes
variable (r : Runtime) (registered : Registered) (awaits : Awaits)

theorem settles_ok (value : List Text) : Settles (.settled (.ok value) : RulesPromise) (some value) := settles_settled _

theorem settles_bind {promise : RulesPromise} {one : Except Failure (List Text)} {f : List Text → Except Failure (List Text)}
    (settles : Settles promise one.toOption) (after : ∀ a, one = .ok a → Settles (next a) (f a).toOption) (g : Failure → Failure) :
    Settles (promise.thenDo next (rethrow g)) (one.bind f).toOption := by
  apply settles_then settles
  · intro a found
    cases one with
    | error failure => cases found
    | ok b =>
      cases found
      exact after a rfl
  · intro none_
    cases one with
    | ok b => cases none_
    | error failure => exact ⟨0,fun error => .settled (.error (g error)) 0⟩

-- Only the error is another.
theorem settles_rethrow {promise : RulesPromise} (settles : Settles promise value) (f : Failure → Failure) :
    Settles (promise.thenDo (fun rules => .settled (.ok rules)) (rethrow f)) value := by
  apply settles_then settles
  · intro a found
    cases found
    exact settles_ok a
  · intro none_
    cases none_
    exact ⟨0,fun error => .settled (.error (f error)) 0⟩

theorem settles_results {items : List β} {f : β → RulesPromise} {g : β → Except Failure (List Text)}
    (each : ∀ item ∈ items, Settles (f item) (g item).toOption)
    (after : ∀ results, items.mapM g = .ok results → Settles (next results) (k results).toOption) (h : Failure → Failure) :
    Settles (.all (items.map f) next (rethrow h)) ((items.mapM g).bind k).toOption := by
  have parts : List.Forall₂ Settles (items.map f) (items.map fun item => (g item).toOption) := by
    apply List.forall₂_map_left_iff.mpr
    apply List.forall₂_map_right_iff.mpr
    exact List.forall₂_same.mpr each
  apply settles_all parts
  · intro results gathered
    have found := mapM_gathered gathered
    rw [found]
    exact after results found
  · intro refused
    have none_ := mapM_refused refused
    refine ⟨0,fun error => ?_⟩
    cases found : items.mapM g with
    | ok results =>
      rw [found] at none_
      cases none_
    | error e => exact .settled (.error (h error)) 0

theorem settles_downloads (sources : List Text) :
    Settles (downloadAll r awaits sources) (Pipeline.downloadAll (pipeline r).filterService sources).toOption := by
  have each : ∀ source ∈ sources, Settles (downloadList r awaits source) (Pipeline.downloadList (pipeline r).filterService source).toOption :=
    fun source _ => settles_pause _ (settles_settled _)
  have whole : Pipeline.downloadAll (pipeline r).filterService sources =
      (sources.mapM (Pipeline.downloadList (pipeline r).filterService)).bind fun results => .ok results.flatten := by
    rw [Pipeline.downloadAll]
    cases sources.mapM (Pipeline.downloadList (pipeline r).filterService) <;> rfl
  rw [whole]
  apply settles_results each
  intro results _
  exact settles_ok results.flatten

theorem prepare_filter (s : FilterService) (rules : List Text) (patterns patternSources : Option (List Text)) (mode : FilterMode)
    (some_ : ¬(patterns.getD [] = [] ∧ patternSources.getD [] = [])) :
    Pipeline.applyPatternFilter ⟨s,transformations⟩ rules patterns patternSources mode =
      (if patternSources.getD [] = [] then .ok [] else Pipeline.downloadAll s (patternSources.getD [])).bind (filterBy s rules patterns mode) := by
  rw [Pipeline.applyPatternFilter,if_neg some_,prepareWildcards]
  by_cases own : patternSources.getD [] = []
  · rw [if_pos own,if_pos own]
    rfl
  · rw [if_neg own,if_neg own]
    cases Pipeline.downloadAll s (patternSources.getD []) with
    | error failure => rfl
    | ok downloadedList => rfl

theorem settles_filter (rules : List Text) (patterns patternSources : Option (List Text)) (mode : FilterMode) :
    Settles (applyPatternFilter r awaits rules patterns patternSources mode)
      (Pipeline.applyPatternFilter (pipeline (alone r registered)) rules patterns patternSources mode).toOption := by
  by_cases both : patterns.getD [] = [] ∧ patternSources.getD [] = []
  · rw [applyPatternFilter,Pipeline.applyPatternFilter,if_pos both,if_pos both]
    exact settles_ok rules
  · have service : (pipeline (alone r registered)).filterService = (pipeline r).filterService := rfl
    rw [applyPatternFilter,if_neg both]
    have pure_ := @prepare_filter (registry registered) (pipeline r).filterService rules patterns patternSources mode both
    have same : pipeline (alone r registered) = ⟨(pipeline r).filterService,registry registered⟩ := rfl
    rw [same,pure_]
    apply settles_bind
    · split
      · exact settles_ok []
      · exact settles_downloads r awaits (patternSources.getD [])
    · intro list _
      exact settles_settled _

theorem settles_transformations (types : List TransformationType) (rules : List Text) :
    Settles (applyTransformations registered awaits types rules)
      (Pipeline.applyTransformations (pipeline (alone r registered)) types rules).toOption := by
  induction types generalizing rules with
  | nil => exact settles_ok rules
  | cons type rest ih =>
    rw [applyTransformations,Pipeline.applyTransformations]
    have same : (pipeline (alone r registered)).registry type = (get registered type).map fun transformation rules => (transformation {} rules).2 := rfl
    rw [same]
    cases found : get registered type with
    | none => exact ih rules
    | some transformation =>
      simp only [Option.map_some]
      apply settles_pause
      -- No field that the section reads is left in its outcome.
      have outcome (fields : Instances) := get_fields registered found fields rules
      cases own : (transformation {} rules).2 with
      | error thrown =>
        have settled : Settles ((rethrow id ⟨.other,thrown⟩).pause (awaits.hooks type)) none := settles_pause _ (settles_settled _)
        apply settles_awaiting ?_ settled
        intro fields
        rw [outcome fields,own]
      | ok result =>
        apply settles_awaiting ?_ (settles_pause (awaits.hooks type) (ih result))
        intro fields
        rw [outcome fields,own]

theorem settles_transform (rules : List Text) (configuration : Filterable) (transformations : List TransformationType) :
    Settles (transform r registered awaits rules configuration transformations)
      (Pipeline.transform (pipeline (alone r registered)) rules configuration transformations).toOption := by
  have assoc : Pipeline.transform (pipeline (alone r registered)) rules configuration transformations =
      (applyExclusions (pipeline (alone r registered)) rules configuration).bind fun transformed =>
        (applyInclusions (pipeline (alone r registered)) transformed configuration).bind
          (Pipeline.applyTransformations (pipeline (alone r registered)) (getOrderedTransformations transformations)) := by
    rw [Pipeline.transform,filterRules]
    cases applyExclusions (pipeline (alone r registered)) rules configuration <;> rfl
  rw [assoc]
  apply settles_bind
  · exact settles_filter r registered awaits rules configuration.exclusions configuration.exclusions_sources .exclude
  · intro transformed _
    apply settles_bind
    · exact settles_filter r registered awaits transformed configuration.inclusions configuration.inclusions_sources .include
    · intro included _
      exact settles_transformations r registered awaits _ included

theorem settles_source (source : Source) :
    Settles (SourceCompiler.compile r registered awaits source) (Compilers.SourceCompiler.compile (alone r registered) source).toOption := by
  have parts : (Compilers.SourceCompiler.compile (alone r registered) source).toOption =
      (((download r source.source).mapError (sourceDownloadError source.source)).bind fun downloaded =>
        let rules := stripUpstreamHeaders downloaded
        let transformations := source.transformations.getD []
        if transformations.length > 0 then
          Pipeline.transform (pipeline (alone r registered)) rules source.toFilterable transformations
        else .ok rules).toOption := by
    have same : download (alone r registered) source.source = download r source.source := rfl
    rw [Compilers.SourceCompiler.compile,mapError_toOption,same]
    cases download r source.source <;> rfl
  rw [parts]
  apply settles_rethrow
  apply settles_bind
  · exact settles_pause _ (settles_settled _)
  · intro downloaded _
    simp only
    split
    · exact settles_transform r registered awaits _ source.toFilterable _
    · exact settles_ok _

end Outcomes

-- The rules of a compilation: those of the sources, in the order of the
-- configuration and each under its own header, behind the list's header.
def Compiled (r : Runtime) (now : Date) (configuration : Configuration) (rules : List Text) : Prop :=
  ConfigurationSchema.accepts r.isURL r.url configuration = true ∧
    ∃ sourceResults finalList,
      List.Forall₂ (fun source list => Compilers.SourceCompiler.compile r source = .ok list) configuration.sources sourceResults ∧
      Pipeline.transform (pipeline r) (combine configuration sourceResults) configuration.toFilterable
        (configuration.transformations.getD []) = .ok finalList ∧
      rules = assemble r now configuration finalList

section Compilation
variable (r : Runtime) (now : Date) (configuration : Configuration)

-- compileWithMetrics with what comes before and behind the sources apart.
def joined (sourceResults : List (List Text)) : Except Failure (List Text) :=
  (Pipeline.transform (pipeline r) (combine configuration sourceResults) configuration.toFilterable
    (configuration.transformations.getD [])).bind fun finalList => .ok (assemble r now configuration finalList)

theorem compileWithMetrics_joined (accepted : ConfigurationSchema.accepts r.isURL r.url configuration = true) :
    (Compilers.FilterCompiler.compileWithMetrics r now configuration).toOption =
      ((configuration.sources.mapM (Compilers.SourceCompiler.compile r)).bind (joined r now configuration)).toOption := by
  have ready : ¬ConfigurationSchema.accepts r.isURL r.url configuration = false := by
    rw [accepted]
    exact Bool.true_eq_false.mp
  rw [Compilers.FilterCompiler.compileWithMetrics,mapError_toOption,if_neg ready,compileLists,mapM_zip]
  cases configuration.sources.mapM (Compilers.SourceCompiler.compile r) with
  | error failure => rfl
  | ok sourceResults =>
    have assembled (finalList : Except Failure (List Text)) : finalList.map (assemble r now configuration) =
        finalList.bind fun finalList => .ok (assemble r now configuration finalList) := by
      cases finalList <;> rfl
    exact congrArg Except.toOption (assembled _)

theorem compileWithMetrics_refused (refused : ConfigurationSchema.accepts r.isURL r.url configuration = false) :
    (Compilers.FilterCompiler.compileWithMetrics r now configuration).toOption = none := by
  rw [Compilers.FilterCompiler.compileWithMetrics,mapError_toOption,if_pos refused]
  rfl

theorem compiled_exact (rules : List Text) :
    (Compilers.FilterCompiler.compileWithMetrics r now configuration).toOption = some rules ↔ Compiled r now configuration rules := by
  cases accepted : ConfigurationSchema.accepts r.isURL r.url configuration with
  | false =>
    rw [compileWithMetrics_refused r now configuration accepted,Compiled,accepted]
    simp
  | true =>
    rw [compileWithMetrics_joined r now configuration accepted,toOption_exact,bind_exact,Compiled]
    constructor
    · intro compiled
      obtain ⟨sourceResults,sources,rest⟩ := compiled
      obtain ⟨finalList,transformed,last⟩ := bind_exact.mp rest
      exact ⟨accepted,sourceResults,finalList,mapM_exact.mp sources,transformed,(Except.ok.inj last).symm⟩
    · intro compiled
      obtain ⟨-,sourceResults,finalList,sources,transformed,rfl⟩ := compiled
      exact ⟨sourceResults,mapM_exact.mpr sources,bind_exact.mpr ⟨finalList,transformed,rfl⟩⟩

end Compilation

section Schedules
variable (r : Runtime) (registered : Registered) (awaits : Awaits) (now : Date) (configuration : Configuration)

theorem settles_compilation : Settles (FilterCompiler.compileWithMetrics r registered awaits now configuration)
    (Compilers.FilterCompiler.compileWithMetrics (alone r registered) now configuration).toOption := by
  apply settles_rethrow
  cases accepted : ConfigurationSchema.accepts r.isURL r.url configuration with
  | false =>
    rw [compileWithMetrics_refused (alone r registered) now configuration accepted,if_pos rfl]
    exact settles_settled _
  | true =>
    rw [compileWithMetrics_joined (alone r registered) now configuration accepted,if_neg (by exact Bool.true_eq_false.mp)]
    apply settles_results
    · intro source _
      exact settles_source r registered awaits source
    · intro sourceResults _
      apply settles_bind
      · exact settles_transform r registered awaits _ configuration.toFilterable _
      · intro finalList _
        exact settles_pause _ (settles_ok _)

-- In every schedule, whatever the shared fields are at first and whatever else
-- is written to them meanwhile, the compilation takes a bounded number of steps
-- of its own, can be run to its end, and ends with the rules of the sources
-- compiled one after the other; where there are none it ends with a failure.
theorem schedule_independent : ∃ bound, ∀ fields events after promise,
    Schedules.run step (fields,FilterCompiler.compileWithMetrics r registered awaits now configuration) events = some (after,promise) →
      Schedules.total Event.cost events ≤ bound ∧
      (∀ result, promise = .settled result → ∀ rules, result = .ok rules ↔ Compiled (alone r registered) now configuration rules) ∧
      ∃ more last result, Schedules.run step (after,promise) more = some (last,.settled result) := by
  obtain ⟨bound,comes⟩ := settles_compilation r registered awaits now configuration
  refine ⟨bound,?_⟩
  intro fields events after promise ran
  obtain ⟨left,less,later⟩ := run_comes comes ran
  refine ⟨by omega,?_,run_settles later after⟩
  intro result settled rules
  subst settled
  rw [← compiled_exact,← comes_settled later]
  exact toOption_exact.symm

end Schedules

section Interleaving

def basicValidator : Validation.Validator where
  parse := fun text =>
    if startsWith text ['|','|'] then some (.network { pattern := text }) else if startsWith text ['!'] then some .comment else none
  hostOf := fun hostname => ⟨some hostname,false,none⟩
  getPublicSuffix := fun _ => none
  modifierErrors := fun _ => []

def shared : Registered where
  validator := basicValidator
  parser := Rules.basicParser
  exempts := fun _ => false
  stateless := fun _ => none

def validated (exclusion : Text) : Source where
  source := "https://lists.example/a.txt".toList
  exclusions := some [exclusion]
  transformations := some [.ConflictDetection,.Validate]

def twoSources : Configuration where
  name := "List".toList
  sources := [validated "ads".toList,validated "cdn".toList]

def oneAwait : Awaits := ⟨fun _ => 1,fun _ => 0,0⟩

-- The second source is there first, and the instances are used in turn.
def interleaved : List (Event Instances) :=
  [.party 1 .resume,.party 1 .resume,.party 0 .resume,.party 0 .resume,.party 1 .resume,.party 0 .resume,.fulfilled]

def interleavedRules : Option (List Text) :=
  (Schedules.run step ({},FilterCompiler.compileWithMetrics twoHosts shared oneAwait epoch twoSources) interleaved).bind
    fun state => state.2.value

theorem value_exact {promise : RulesPromise} (found : promise.value = some rules) : promise = .settled (.ok rules) := by
  cases promise with
  | settled result => exact congrArg Promise.settled (toOption_exact.mp found)
  | awaiting write resume => cases found
  | all promises fulfilled rejected => cases found

theorem interleaved_compiled : ∃ rules, interleavedRules = some rules ∧ Compiled (alone twoHosts shared) epoch twoSources rules ∧
    rules.drop 10 = ["||cdn.example^","!","! Source: https://lists.example/a.txt","!","||ads.example^"].map String.toList := by
  have ordered : interleavedRules.map (·.drop 10) =
      some (["||cdn.example^","!","! Source: https://lists.example/a.txt","!","||ads.example^"].map String.toList) := by decide +kernel
  obtain ⟨rules,found,tail⟩ := Option.map_eq_some_iff.mp ordered
  obtain ⟨⟨after,promise⟩,ran,value⟩ := Option.bind_eq_some_iff.mp found
  obtain ⟨bound,schedules⟩ := schedule_independent twoHosts shared oneAwait epoch twoSources
  obtain ⟨-,exact_,-⟩ := schedules {} interleaved after promise ran
  exact ⟨rules,found,(exact_ (.ok rules) (value_exact value) rules).mp rfl,tail⟩

end Interleaving

end AdblockCompiler.Scheduling
