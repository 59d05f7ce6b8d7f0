import AdblockCompiler.JsonText
import AdblockCompiler.KeyedRows
import AdblockCompiler.Schedules

-- The manager that loads, merges and validates configurations.
namespace AdblockCompiler.ConfigurationManager
open JsText JsonText KeyedRows Schedules

-- What a source yields: the entries of an object, none for undefined; or what
-- the merge skips (null, undefined, an array, a scalar).
inductive Partial where
  | object (entries : Entries Text (Option Json))
  | other

-- An own __proto__ of what is parsed is an entry as any other.
def ofFields (fields : List (Text × Json)) : Entries Text (Option Json) :=
  Entries.empty.setAll (fields.map fun field => (field.1,some field.2))

def ofJson : Json → Partial
  | .object fields => .object (ofFields fields)
  | _ => .other

-- What a source asks when it is loaded: the files, the environment, and sources
-- of other classes by their number.
inductive ReadError where
  | notFound
  | other (message : Text)

structure World where
  readTextFile : Text → Except ReadError Text
  env : Text → Option Text
  others : Nat → Except Thrown Partial

inductive ConfigurationSource where
  | file (path : Text)
  | object (config : Partial)
  | env (envReader : Option (Text → Option Text))
  | cli (inputs : List Text) (inputType : Text)
  | override (parsed : List (Text × Json))
  | other (id : Nat)

section Sources
variable (jsonParse : Text → Except Thrown Json)

def loadFromFile (world : World) (path : Text) : Except Thrown Json :=
  match world.readTextFile path with
  | .error .notFound => .error ("Configuration file not found: ".toList ++ path)
  | .error (.other message) => .error ("Failed to load configuration: ".toList ++ message)
  | .ok content =>
    match jsonParse content with
    | .error message => .error ("Invalid JSON in configuration file: ".toList ++ message)
    | .ok config => .ok config

def environmentFields : List (Text × Text) :=
  [("ADBLOCK_CONFIG_NAME","name"),("ADBLOCK_CONFIG_DESCRIPTION","description"),("ADBLOCK_CONFIG_HOMEPAGE","homepage"),
    ("ADBLOCK_CONFIG_LICENSE","license"),("ADBLOCK_CONFIG_VERSION","version")].map fun row => (row.1.toList,row.2.toList)

-- An empty variable sets nothing.
def environmentConfig (envReader : Text → Option Text) : List (Text × Json) :=
  environmentFields.filterMap fun field =>
    match envReader field.1 with
    | some (c :: value) => some (field.2,.string (c :: value))
    | _ => none

def createFromInputs (inputs : List Text) (inputType : Text) : List (Text × Json) :=
  let sourceType := if inputType = "adblock".toList then "adblock".toList else "hosts".toList
  [("name".toList,.string "Blocklist".toList),
    ("sources".toList,.array (inputs.map fun input =>
      .object [("source".toList,.string input),("type".toList,.string sourceType)])),
    ("transformations".toList,.array (["RemoveComments","Deduplicate","Compress","RemoveModifiers","Validate","TrimLines",
      "InsertFinalNewLine"].map fun transformation => .string transformation.toList))]

def newOverride (json : Text) : Except Thrown ConfigurationSource :=
  match jsonParse json with
  | .error _ => .error ("--override value is not valid JSON: ".toList ++ json)
  | .ok (.object fields) => .ok (.override fields)
  | .ok _ => .error ("--override JSON must be an object (e.g. \x7b\"key\":\"value\"\x7d), but received: ".toList ++ json)

def ConfigurationSource.load (world : World) : ConfigurationSource → Except Thrown Partial
  | .file path => (loadFromFile jsonParse world path).map ofJson
  | .object config => .ok config
  | .env envReader => .ok (.object (ofFields (environmentConfig (envReader.getD world.env))))
  | .cli inputs inputType => .ok (.object (ofFields (createFromInputs inputs inputType)))
  | .override parsed => .ok (.object (ofFields parsed))
  | .other id => world.others id

-- source instanceof OverrideConfigurationSource || source instanceof CliConfigurationSource
def ConfigurationSource.isOverride : ConfigurationSource → Bool
  | .override _ => true
  | .cli .. => true
  | _ => false

end Sources

-- The object under construction: its own fields, and its prototype where that is
-- no longer the one of all objects.
structure Merged where
  fields : Entries Text Json
  prototype : Option Json

def proto : Text := "__proto__".toList

-- Whether the setter of __proto__ is what an assignment to that name meets.
def Merged.hasSetter (result : Merged) : Bool :=
  (result.fields.get proto).isNone &&
    match result.prototype with
    | none => true
    | some (.array _) => true
    | some (.object fields) => !fields.any (·.1 = proto)
    | some _ => false

-- result[key] = value
def Merged.assign (result : Merged) (key : Text) (value : Json) : Merged :=
  if key = proto ∧ result.hasSetter = true then
    match value with
    | .null | .array _ | .object _ => { result with prototype := some value }
    | _ => result
  else { result with fields := result.fields.set (key,value) }

-- result[key], for a name that the prototype of all objects has not.
def Merged.read (result : Merged) (key : Text) : Option Json :=
  match result.fields.get key,result.prototype with
  | some value,_ => some value
  | none,some (.object fields) => ((ofFields fields).get key).join
  | none,_ => none

def assignEntry (result : Merged) (entry : Text × Option Json) : Merged :=
  match entry.2 with
  | some value => result.assign entry.1 value
  | none => result

def mergePartial (result : Merged) : Partial → Merged
  | .object entries => entries.rows.foldl assignEntry result
  | .other => result

def deepMerge (partials : List Partial) : Merged := partials.foldl mergePartial ⟨Entries.empty,none⟩

-- An option that is left out is on.
structure ManagerOptions where
  applyEnvOverrides : Option Bool := none
  enforceSourceLimit : Option Bool := none
  enforceExclusionLimit : Option Bool := none

def maxSources : Nat := 100
def maxExclusions : Nat := 10000

def enforceLimit (enforced : Bool) (key : Text) (limit : Nat) (merged : Merged) : Merged :=
  match enforced,merged.read key with
  | true,some (.array items) =>
    if items.length > limit then { merged with fields := merged.fields.set (key,.array (items.take limit)) } else merged
  | _,_ => merged

def enforceLimits (options : ManagerOptions) (merged : Merged) : Merged :=
  enforceLimit (options.enforceExclusionLimit ≠ some false) "exclusions".toList maxExclusions
    (enforceLimit (options.enforceSourceLimit ≠ some false) "sources".toList maxSources merged)

-- The loop over the sources: base sources, then override sources.
def separate : List ConfigurationSource → List ConfigurationSource × List ConfigurationSource
  | [] => ([],[])
  | source :: rest =>
    let (baseSources,overrideSources) := separate rest
    if source.isOverride then (baseSources,source :: overrideSources) else (source :: baseSources,overrideSources)

def pipeline (options : ManagerOptions) (sources : List ConfigurationSource) : List ConfigurationSource :=
  if options.applyEnvOverrides ≠ some false then
    let (baseSources,overrideSources) := separate sources
    baseSources ++ [.env none] ++ overrideSources
  else sources

structure Issue where
  path : List Text
  message : Text
  deriving DecidableEq, Repr

abbrev ZodError := List Issue

-- Thrown by a source, or for what the schema refuses.
inductive Rejection where
  | source (thrown : Thrown)
  | ConfigurationValidationError (message : Text) (zodError : ZodError)
  deriving DecidableEq, Repr

def validationMessage (issues : ZodError) : Text :=
  "Invalid configuration:\n".toList ++
    ['\n'].intercalate (issues.map fun i => "  ".toList ++ ['.'].intercalate i.path ++ ": ".toList ++ i.message)

-- A call of load between two of its awaits, or when it is settled.
inductive Load (γ : Type) where
  | loading (todo : List ConfigurationSource) (partials : List Partial)
  | resolved (partials : List Partial) (merged : Merged) (config : γ)
  | rejected (rejection : Rejection)

structure State (γ : Type) where
  resolvedConfig : Option γ
  lastError : Option ZodError
  loads : List (Load γ)

structure Manager (γ : Type) where
  sources : List ConfigurationSource
  options : ManagerOptions
  jsonParse : Text → Except Thrown Json
  safeParse : Merged → Except ZodError γ

section Load
variable {γ : Type} (m : Manager γ)

def State.initial : State γ := ⟨none,none,[]⟩

def getEffectiveConfig (s : State γ) : Option γ := s.resolvedConfig

def getValidationErrors (s : State γ) : Option ZodError := s.lastError

-- What follows the last await of the i-th call.
def finish (s : State γ) (i : Nat) (partials : List Partial) : State γ :=
  let merged := enforceLimits m.options (deepMerge partials)
  match m.safeParse merged with
  | .error error =>
    { s with
      lastError := some error
      loads := s.loads.set i (.rejected (.ConfigurationValidationError (validationMessage error) error)) }
  | .ok data =>
    { resolvedConfig := some data
      lastError := none
      loads := s.loads.set i (.resolved partials merged data) }

def advance (s : State γ) (i : Nat) (todo : List ConfigurationSource) (partials : List Partial) : State γ :=
  match todo with
  | [] => finish m s i partials
  | todo => { s with loads := s.loads.set i (.loading todo partials) }

inductive Event where
  | load
  | answer (i : Nat) (world : World)

-- A new call, or the answer that a call waits for: the source is asked in world.
def step (s : State γ) : Event → Option (State γ)
  | .load =>
    let todo := pipeline m.options m.sources
    some (advance m { s with loads := s.loads ++ [.loading todo []] } s.loads.length todo [])
  | .answer i world =>
    match s.loads[i]? with
    | some (.loading (source :: todo) partials) =>
      match source.load m.jsonParse world with
      | .ok partial_ => some (advance m s i todo (partials ++ [partial_]))
      | .error thrown => some { s with loads := s.loads.set i (.rejected (.source thrown)) }
    | _ => none

end Load

section Merging

-- What a source defines under a key, and what the last of several does.
def Partial.defined (key : Text) : Partial → Option Json
  | .object entries => (entries.get key).join
  | .other => none

def lastDefined (key : Text) (partials : List Partial) : Option Json := partials.reverse.findSome? (Partial.defined key)

-- Assigned to __proto__, a value is no field.
def Plain (partial_ : Partial) : Prop := partial_.defined proto = none

theorem entries_assigned (rows : List (Text × Option Json)) (unique : (rows.map Prod.fst).Nodup)
    (plain : ∀ row ∈ rows, row.2.isSome = true → row.1 ≠ proto) (result : Merged) :
    (rows.foldl assignEntry result).prototype = result.prototype ∧
      ∀ key, (rows.foldl assignEntry result).fields.get key =
        ((rows.find? (·.1 = key)).bind Prod.snd).or (result.fields.get key) := by
  induction rows generalizing result with
  | nil => simp
  | cons row rest ih =>
    obtain ⟨k,value⟩ := row
    obtain ⟨fresh,distinct⟩ := List.nodup_cons.mp unique
    have later := ih distinct (fun other member => plain other (List.mem_cons_of_mem _ member))
    have missing : rest.find? (·.1 = k) = none := by
      refine List.find?_eq_none.mpr ?_
      intro other member same
      have equal : other.1 = k := of_decide_eq_true same
      exact fresh (List.mem_map.mpr ⟨other,member,equal⟩)
    cases value with
    | none =>
      obtain ⟨prototype,fields⟩ := later result
      refine ⟨prototype,?_⟩
      intro key
      have none_ : ((k,none) :: rest).foldl assignEntry result = rest.foldl assignEntry result := rfl
      rw [none_,fields]
      by_cases here : k = key
      · subst here
        simp [missing]
      · simp [here]
    | some value =>
      have field : k ≠ proto := plain (k,some value) (List.mem_cons_self ..) rfl
      have assigned : assignEntry result (k,some value) = { result with fields := result.fields.set (k,value) } := by
        simp [assignEntry,Merged.assign,field]
      rw [List.foldl_cons,assigned]
      obtain ⟨prototype,fields⟩ := later { result with fields := result.fields.set (k,value) }
      refine ⟨prototype,?_⟩
      intro key
      rw [fields,get_set]
      by_cases here : k = key
      · subst here
        simp [missing]
      · have other : key ≠ k := fun same => here same.symm
        simp [here,other]

theorem merged_partial (partial_ : Partial) (plain : Plain partial_) (result : Merged) :
    (mergePartial result partial_).prototype = result.prototype ∧
      ∀ key, (mergePartial result partial_).fields.get key = (partial_.defined key).or (result.fields.get key) := by
  cases partial_ with
  | other => exact ⟨rfl,fun _ => rfl⟩
  | object entries =>
    have held (key : Text) : (Partial.object entries).defined key = (entries.rows.find? (·.1 = key)).bind Prod.snd := by
      rw [Partial.defined,Entries.get,Table.find,Option.join,Option.bind_map]
      rfl
    have fields : ∀ row ∈ entries.rows, row.2.isSome = true → row.1 ≠ proto := by
      intro row member some_ named
      obtain ⟨value,given⟩ := Option.isSome_iff_exists.mp some_
      have found : entries.get proto = some (some value) := by
        rw [get_some,← named,← given]
        exact member
      rw [Plain,Partial.defined,found] at plain
      cases plain
    obtain ⟨prototype,assigned⟩ := entries_assigned entries.rows entries.unique fields result
    refine ⟨prototype,?_⟩
    intro key
    rw [held]
    exact assigned key

-- By induction on the sources: the one that comes last is asked first.
theorem deepMerge_fields (partials : List Partial) (plain : ∀ partial_ ∈ partials, Plain partial_) :
    (deepMerge partials).prototype = none ∧ ∀ key, (deepMerge partials).fields.get key = lastDefined key partials := by
  induction partials using List.reverseRecOn with
  | nil => exact ⟨rfl,fun _ => rfl⟩
  | append_singleton before last ih =>
    obtain ⟨prototype,fields⟩ := ih fun partial_ member => plain partial_ (List.mem_append_left _ member)
    obtain ⟨same,laid⟩ := merged_partial last (plain last (by simp)) (deepMerge before)
    have shape : deepMerge (before ++ [last]) = mergePartial (deepMerge before) last := List.foldl_append
    rw [shape]
    refine ⟨same.trans prototype,?_⟩
    intro key
    rw [laid,fields,lastDefined,lastDefined,List.reverse_append]
    cases defined : last.defined key <;> simp [defined]

end Merging

section Limits

def capped (limit : Nat) : Json → Json
  | .array items => .array (items.take limit)
  | value => value

-- The limits as they are stated: two fields are cut where theirs is enforced.
def cut (options : ManagerOptions) (key : Text) (value : Json) : Json :=
  if key = "sources".toList ∧ options.enforceSourceLimit ≠ some false then capped maxSources value
  else if key = "exclusions".toList ∧ options.enforceExclusionLimit ≠ some false then capped maxExclusions value
  else value

theorem read_own {merged : Merged} (prototype : merged.prototype = none) (key : Text) : merged.read key = merged.fields.get key := by
  rw [Merged.read,prototype]
  cases merged.fields.get key <;> rfl

theorem enforceLimit_fields (enforced : Bool) (name : Text) (limit : Nat) (merged : Merged) (prototype : merged.prototype = none) :
    (enforceLimit enforced name limit merged).prototype = none ∧
      ∀ key, (enforceLimit enforced name limit merged).fields.get key =
        (merged.fields.get key).map fun value => if key = name ∧ enforced = true then capped limit value else value := by
  have kept (same : ∀ value, merged.fields.get name = some value → enforced = true → capped limit value = value) (key : Text) :
      merged.fields.get key =
        (merged.fields.get key).map fun value => if key = name ∧ enforced = true then capped limit value else value := by
    cases held : merged.fields.get key with
    | none => rfl
    | some value =>
      by_cases here : key = name ∧ enforced = true
      · have whole := same value (here.1 ▸ held) here.2
        simp [here,whole]
      · simp [here]
  unfold enforceLimit
  split
  · rename_i items found
    rw [read_own prototype] at found
    split
    · refine ⟨prototype,?_⟩
      intro key
      rw [get_set]
      by_cases here : key = name
      · simp [here,found,capped]
      · simp [here]
    · refine ⟨prototype,kept ?_⟩
      intro value held _
      obtain rfl := Option.some.inj (found.symm.trans held)
      rw [capped,List.take_of_length_le (by omega)]
  · rename_i apart
    refine ⟨prototype,kept ?_⟩
    intro value held on
    cases value with
    | array items => exact absurd ((read_own prototype name).trans held) (apart items on)
    | _ => rfl

theorem enforceLimits_fields (options : ManagerOptions) (merged : Merged) (prototype : merged.prototype = none) :
    (enforceLimits options merged).prototype = none ∧
      ∀ key, (enforceLimits options merged).fields.get key = (merged.fields.get key).map (cut options key) := by
  obtain ⟨still,first⟩ := enforceLimit_fields (options.enforceSourceLimit ≠ some false) "sources".toList maxSources merged prototype
  obtain ⟨last,second⟩ := enforceLimit_fields (options.enforceExclusionLimit ≠ some false) "exclusions".toList maxExclusions _ still
  refine ⟨last,?_⟩
  intro key
  rw [enforceLimits,second,first,Option.map_map]
  congr 1
  funext value
  have apart : "sources".toList ≠ "exclusions".toList := by decide
  simp only [Function.comp_apply,decide_eq_true_eq,cut]
  by_cases sources : key = "sources".toList ∧ options.enforceSourceLimit ≠ some false
  · have other : ¬ (key = "exclusions".toList ∧ options.enforceExclusionLimit ≠ some false) :=
      fun exclusions => apart (sources.1.symm.trans exclusions.1)
    rw [if_pos sources,if_pos sources,if_neg other]
  · rw [if_neg sources,if_neg sources]

end Limits

section Runs
variable {γ : Type} {m : Manager γ}

-- What the constructor takes is an object, which is what the source yields.
theorem newOverride_load (taken : newOverride jsonParse json = .ok source) :
    source.isOverride = true ∧ ∃ fields, jsonParse json = .ok (.object fields) ∧
      ∀ world, source.load jsonParse world = .ok (.object (ofFields fields)) := by
  unfold newOverride at taken
  split at taken
  · cases taken
  · cases taken
    exact ⟨rfl,_,‹_›,fun _ => rfl⟩
  · cases taken

theorem separate_filter (sources : List ConfigurationSource) :
    separate sources = (sources.filter (!·.isOverride),sources.filter (·.isOverride)) := by
  induction sources with
  | nil => rfl
  | cons source rest ih =>
    rw [separate,ih]
    cases kind : source.isOverride <;> simp [kind]

-- Base sources, environment and overrides, each group in the order of the list;
-- without the environment the list as it is.
def layers (options : ManagerOptions) (sources : List ConfigurationSource) : List ConfigurationSource :=
  if options.applyEnvOverrides = some false then sources
  else sources.filter (!·.isOverride) ++ .env none :: sources.filter (·.isOverride)

theorem pipeline_layers (options : ManagerOptions) (sources : List ConfigurationSource) :
    pipeline options sources = layers options sources := by
  unfold pipeline layers
  by_cases off : options.applyEnvOverrides = some false
  · simp [off]
  · simp [off,separate_filter]

variable (m) in
def Answers (source : ConfigurationSource) (partial_ : Partial) : Prop := ∃ world, source.load m.jsonParse world = .ok partial_

-- The sources that have answered, and those that have not.
variable (m) in
def Progress (todo : List ConfigurationSource) (partials : List Partial) : Prop :=
  ∃ done, layers m.options m.sources = done ++ todo ∧ List.Forall₂ (Answers m) done partials

variable (m) in
def Sound : Load γ → Prop
  | .loading todo partials => Progress m todo partials
  | .resolved partials merged config =>
    Progress m [] partials ∧ merged = enforceLimits m.options (deepMerge partials) ∧ m.safeParse merged = .ok config
  | .rejected _ => True

-- What becomes of the i-th call in one step, the calls and what is kept of them
-- being known before it.
variable (m) in
inductive Outcome (calls : List (Load γ)) (s : State γ) (i : Nat) : State γ → Prop where
  | waits (progress : Progress m todo partials) (loads : t.loads = calls.set i (.loading todo partials))
      (same : getEffectiveConfig t = getEffectiveConfig s) (errors : getValidationErrors t = getValidationErrors s) :
      Outcome calls s i t
  | fails (loads : t.loads = calls.set i (.rejected (.source thrown)))
      (same : getEffectiveConfig t = getEffectiveConfig s) (errors : getValidationErrors t = getValidationErrors s) :
      Outcome calls s i t
  | refuses (loads : t.loads = calls.set i (.rejected (.ConfigurationValidationError (validationMessage error) error)))
      (same : getEffectiveConfig t = getEffectiveConfig s) (errors : getValidationErrors t = some error) : Outcome calls s i t
  | resolves (sound : Sound m (.resolved partials merged config)) (loads : t.loads = calls.set i (.resolved partials merged config))
      (now : getEffectiveConfig t = some config) (errors : getValidationErrors t = none) : Outcome calls s i t

theorem advance_outcome (s : State γ) (i : Nat) (progress : Progress m todo partials) :
    Outcome m s.loads s i (advance m s i todo partials) := by
  cases todo with
  | cons source todo => exact .waits progress rfl rfl rfl
  | nil =>
    rw [advance,finish]
    cases parsed : m.safeParse (enforceLimits m.options (deepMerge partials)) with
    | error error => exact .refuses rfl rfl rfl
    | ok data => exact .resolves ⟨progress,rfl,parsed⟩ rfl rfl rfl

-- The calls that a step finds: a new one has asked no source yet.
variable (m) in
def calls (s : State γ) : Event → List (Load γ)
  | .load => s.loads ++ [.loading (pipeline m.options m.sources) []]
  | .answer .. => s.loads

theorem step_outcome (sound : ∀ load ∈ s.loads, Sound m load) (stepped : step m s event = some t) :
    ∃ i, Outcome m (calls m s event) s i t := by
  cases event with
  | load =>
    obtain rfl := Option.some.inj stepped
    have start : Progress m (pipeline m.options m.sources) [] := ⟨[],(pipeline_layers _ _).symm,.nil⟩
    have outcome := advance_outcome { s with loads := calls m s .load } s.loads.length start
    refine ⟨s.loads.length,?_⟩
    cases outcome with
    | waits progress loads same errors => exact .waits progress loads same errors
    | fails loads same errors => exact .fails loads same errors
    | refuses loads same errors => exact .refuses loads same errors
    | resolves sound loads now errors => exact .resolves sound loads now errors
  | answer i world =>
    rw [step] at stepped
    cases found : s.loads[i]? with
    | none =>
      rw [found] at stepped
      cases stepped
    | some load =>
      rw [found] at stepped
      have before := sound load (List.mem_of_getElem? found)
      cases load with
      | resolved | rejected => cases stepped
      | loading todo partials =>
        cases todo with
        | nil => cases stepped
        | cons source todo =>
          obtain ⟨done,whole,answered⟩ := before
          simp only at stepped
          cases loaded : source.load m.jsonParse world with
          | error thrown =>
            rw [loaded] at stepped
            obtain rfl := Option.some.inj stepped
            exact ⟨i,.fails rfl rfl rfl⟩
          | ok partial_ =>
            rw [loaded] at stepped
            obtain rfl := Option.some.inj stepped
            refine ⟨i,advance_outcome s i ⟨done ++ [source],?_,?_⟩⟩
            · rw [whole,List.append_assoc,List.singleton_append]
            · exact List.rel_append answered (.cons ⟨world,loaded⟩ .nil)

theorem calls_sound (sound : ∀ load ∈ s.loads, Sound m load) : ∀ load ∈ calls m s event, Sound m load := by
  cases event with
  | answer => exact sound
  | load => exact forall_append sound ⟨[],(pipeline_layers _ _).symm,.nil⟩

theorem step_sound (sound : ∀ load ∈ s.loads, Sound m load) (stepped : step m s event = some t) :
    ∀ load ∈ t.loads, Sound m load := by
  obtain ⟨i,outcome⟩ := step_outcome sound stepped
  have known : ∀ load ∈ calls m s event, Sound m load := calls_sound sound
  cases outcome with
  | waits progress loads =>
    rw [loads]
    exact forall_set known progress
  | fails loads =>
    rw [loads]
    exact forall_set known trivial
  | refuses loads =>
    rw [loads]
    exact forall_set known trivial
  | resolves good loads =>
    rw [loads]
    exact forall_set known good

-- A call that is newly settled after a step is the one that the step settled.
theorem newly_settled {s t : State γ} {event : Event} {load last : Load γ} {j : Nat} (loads : t.loads = (calls m s event).set i last)
    (settled : ∀ todo partials, load ≠ .loading todo partials) (found : t.loads[j]? = some load) (new : s.loads[j]? ≠ some load) :
    load = last := by
  rw [loads] at found
  cases found_set found with
  | inl here => exact here.2
  | inr there =>
    have before : (calls m s event)[j]? = some load := there.2
    cases event with
    | answer => exact absurd before new
    | load =>
      cases found_append before with
      | inl old => exact absurd old new
      | inr fresh => exact absurd fresh.2 (settled _ _)

-- What a call leaves behind when it settles: a refusal its errors, a failed
-- source nothing, a success its configuration.
def Settles (s t : State γ) : Load γ → Prop
  | .loading .. => True
  | .rejected (.source _) => getEffectiveConfig t = getEffectiveConfig s ∧ getValidationErrors t = getValidationErrors s
  | .rejected (.ConfigurationValidationError message error) =>
    getEffectiveConfig t = getEffectiveConfig s ∧ getValidationErrors t = some error ∧ message = validationMessage error
  | .resolved _ _ config => getEffectiveConfig t = some config ∧ getValidationErrors t = none

theorem step_settles {load : Load γ} {i : Nat} (sound : ∀ load ∈ s.loads, Sound m load) (stepped : step m s event = some t)
    (settled : ∀ todo partials, load ≠ .loading todo partials) (found : t.loads[i]? = some load) (new : s.loads[i]? ≠ some load) :
    Settles s t load := by
  obtain ⟨j,outcome⟩ := step_outcome sound stepped
  cases outcome with
  | waits _ loads => exact absurd (newly_settled loads settled found new) (settled _ _)
  | fails loads same errors =>
    obtain rfl := newly_settled loads settled found new
    exact ⟨same,errors⟩
  | refuses loads same errors =>
    obtain rfl := newly_settled loads settled found new
    exact ⟨same,errors,rfl⟩
  | resolves _ loads now errors =>
    obtain rfl := newly_settled loads settled found new
    exact ⟨now,errors⟩

-- What holds of every state that loads have led to.
variable (m) in
structure Layered (s : State γ) : Prop where
  precedence : ∀ (i : Nat) partials merged config, s.loads[i]? = some (.resolved partials merged config) →
    m.safeParse merged = .ok config ∧ List.Forall₂ (Answers m) (layers m.options m.sources) partials ∧
      ((∀ partial_ ∈ partials, Plain partial_) → merged.prototype = none ∧
        ∀ key, merged.fields.get key = (lastDefined key partials).map (cut m.options key))
  rejected : ∀ event t (i : Nat) rejection, step m s event = some t → t.loads[i]? = some (.rejected rejection) →
    s.loads[i]? ≠ some (.rejected rejection) → getEffectiveConfig t = getEffectiveConfig s
  resolved : ∀ event t (i : Nat) partials merged config, step m s event = some t → t.loads[i]? = some (.resolved partials merged config) →
    s.loads[i]? ≠ some (.resolved partials merged config) → getEffectiveConfig t = some config

theorem resolved_fields (sound : Sound m (.resolved partials merged config)) (plain : ∀ partial_ ∈ partials, Plain partial_) :
    merged.prototype = none ∧ ∀ key, merged.fields.get key = (lastDefined key partials).map (cut m.options key) := by
  obtain ⟨_,rfl,_⟩ := sound
  obtain ⟨prototype,fields⟩ := deepMerge_fields partials plain
  obtain ⟨still,limited⟩ := enforceLimits_fields m.options (deepMerge partials) prototype
  refine ⟨still,?_⟩
  intro key
  rw [limited,fields]

theorem run_sound (ran : run (step m) State.initial events = some s) : ∀ load ∈ s.loads, Sound m load :=
  run_keeps (fun s => ∀ load ∈ s.loads, Sound m load) (fun _ _ _ => step_sound) (by simp [State.initial]) ran

theorem load_layers (ran : run (step m) State.initial events = some s) : Layered m s := by
  have sound := run_sound ran
  constructor
  · intro i partials merged config found
    have known := sound _ (List.mem_of_getElem? found)
    have fields := resolved_fields known
    obtain ⟨⟨done,whole,answered⟩,_,parsed⟩ := known
    rw [List.append_nil] at whole
    rw [whole]
    exact ⟨parsed,answered,fields⟩
  · intro event t i rejection stepped found new
    have settles := step_settles sound stepped (by simp) found new
    cases rejection with
    | source => exact settles.1
    | ConfigurationValidationError => exact settles.1
  · intro event t i partials merged config stepped found new
    exact (step_settles sound stepped (by simp) found new).1

theorem load_settles {load : Load γ} {i : Nat} (ran : run (step m) State.initial events = some s) (stepped : step m s event = some t)
    (settled : ∀ todo partials, load ≠ .loading todo partials) (found : t.loads[i]? = some load) (new : s.loads[i]? ≠ some load) :
    Settles s t load := step_settles (run_sound ran) stepped settled found new

end Runs

section Samples

def world : World := ⟨fun _ => .error .notFound,fun _ => none,fun _ => .error []⟩

-- A base that comes after an override, with a schema that takes every object.
def sample (options : ManagerOptions) (base : Partial) : Manager (Option Json) where
  sources := [.override [("name".toList,.string "CI Build".toList)],.object base]
  options := options
  jsonParse _ := .error []
  safeParse merged := .ok (merged.read "name".toList)

def base : Partial := ofJson (.object [("name".toList,.string "Base".toList)])

theorem load_layers_override : ∃ s, run (step (sample ⟨none,none,none⟩ base)) State.initial
    [.load,.answer 0 world,.answer 0 world,.answer 0 world] = some s ∧ Layered (sample ⟨none,none,none⟩ base) s := by
  have ran : run (step (sample ⟨none,none,none⟩ base)) State.initial
      [.load,.answer 0 world,.answer 0 world,.answer 0 world] = some _ := rfl
  exact ⟨_,ran,load_layers ran⟩

-- The layers without regard to whether the environment is applied.
def groups (options : ManagerOptions) (sources : List ConfigurationSource) : List ConfigurationSource :=
  sources.filter (!·.isOverride) ++
    ((if options.applyEnvOverrides = some false then [] else [.env none]) ++ sources.filter (·.isOverride))

def Grouped (m : Manager (Option Json)) : Prop :=
  ∀ events s (i : Nat) partials merged config grouped, run (step m) State.initial events = some s →
    s.loads[i]? = some (.resolved partials merged config) →
      List.Forall₂ (Answers m) (groups m.options m.sources) grouped →
        ∀ key, merged.fields.get key = (lastDefined key grouped).map (cut m.options key)

-- Without the environment a base that comes later wins over an override, and a
-- field named __proto__ is none of the merged object.
theorem load_not_grouped :
    ¬ Grouped (sample ⟨some false,none,none⟩ base) ∧
      ¬ Grouped (sample ⟨none,none,none⟩ (ofJson (.object [(proto,.object [])]))) := by
  have override : Answers (sample ⟨none,none,none⟩ base) (.override [("name".toList,.string "CI Build".toList)])
      (.object (ofFields [("name".toList,.string "CI Build".toList)])) := ⟨world,rfl⟩
  constructor
  · intro grouped
    have name := grouped [.load,.answer 0 world,.answer 0 world] _ 0 _ _ _ _ rfl rfl
      (.cons ⟨world,rfl⟩ (.cons override .nil)) "name".toList
    have texts : some (Json.string "Base".toList) = some (.string "CI Build".toList) := name
    have same := Json.string.inj (Option.some.inj texts)
    revert same
    decide
  · intro grouped
    have field := grouped [.load,.answer 0 world,.answer 0 world,.answer 0 world] _ 0 _ _ _ _ rfl rfl
      (.cons ⟨world,rfl⟩ (.cons ⟨world,rfl⟩ (.cons override .nil))) proto
    have missing : none = some (Json.object []) := field
    cases missing

end Samples
end AdblockCompiler.ConfigurationManager
