import AdblockCompiler.CacheKeys
import AdblockCompiler.DurableSteps

-- The run of BatchCompilationWorkflow over the engine of its steps. Times and
-- the progress events are left out: no step reads them.
namespace AdblockCompiler.BatchCompilation
open JsText JsonText CacheKeys Schedules DurableSteps

def MAX_CONCURRENT : Nat := 3

structure Request where
  id : Text
  configuration : List (Text × Json)
  preFetchedContent : List (Text × Text)

def Request.configName (request : Request) : Text :=
  match request.configuration.lookup "name".toList with
  | some (.string name) => name
  | _ => []

def Request.sources (request : Request) : List Json :=
  match request.configuration.lookup "sources".toList with
  | some (.array sources) => sources
  | _ => []

structure WorkflowCompilationResult where
  success : Bool
  requestId : Text
  configName : Text
  rules : Option (List Text) := none
  ruleCount : Option Nat := none
  cacheKey : Option Text := none
  error : Option Text := none
  deriving DecidableEq

-- What becomes of a request in one attempt of its chunk: the compilation, and
-- the put of its result.
structure Given where
  compiled : Except Text (List Text)
  stored : Except Text Unit

def Request.cacheKey (request : Request) : Option Text :=
  if request.preFetchedContent = [] then some (BatchCompilationWorkflow.getCacheKey request.configuration) else none

def Request.failedResult (request : Request) (error : Text) : WorkflowCompilationResult where
  success := false
  requestId := request.id
  configName := request.configName
  error := some error

def Request.compile (request : Request) (given : Given) : WorkflowCompilationResult :=
  match given.compiled with
  | .error message => request.failedResult message
  | .ok rules =>
    let compileResult : WorkflowCompilationResult := {
      success := true
      requestId := request.id
      configName := request.configName
      rules := some rules
      ruleCount := some rules.length
      cacheKey := request.cacheKey }
    match request.cacheKey,given.stored with
    | some _,.error message => request.failedResult message
    | _,_ => compileResult

-- ids has the ids of the requests before.
def validate (ids : List Text) : List Request → Except Text Unit
  | [] => .ok ()
  | req :: rest =>
    if req.id = [] then .error "Each request must have an ID".toList
    else if req.id ∈ ids then .error ("Duplicate request ID: ".toList ++ req.id)
    else if req.configName = [] then .error ("Request ".toList ++ (req.id ++ ": Configuration must have a name".toList))
    else if req.sources = [] then .error ("Request ".toList ++ (req.id ++ ": Configuration must have at least one source".toList))
    else validate (req.id :: ids) rest

-- requests.slice(i, i+MAX_CONCURRENT) for the multiples i of MAX_CONCURRENT.
def chunk (requests : List Request) (index : Nat) : List Request := (requests.drop (index*MAX_CONCURRENT)).take MAX_CONCURRENT
def chunkCount (requests : List Request) : Nat := (requests.length+(MAX_CONCURRENT-1))/MAX_CONCURRENT

inductive Step where
  | validateBatch
  | compileChunk (chunkNumber : Nat)
  | updateBatchMetrics
  deriving DecidableEq

abbrev Value : Step → Type
  | .compileChunk _ => List WorkflowCompilationResult
  | .validateBatch | .updateBatchMetrics => Unit

-- An attempt is cut short (a timeout, KV that does not answer), or its callback
-- runs to its end: given tells what becomes of each request of the chunk.
inductive Attempt where
  | interrupted (error : Text)
  | carried (given : Nat → Given)

instance : Inhabited Attempt := ⟨.interrupted []⟩

def compileChunk (requests : List Request) (given : Nat → Given) (index : Nat) : List WorkflowCompilationResult :=
  (chunk requests index).mapIdx fun place req => req.compile (given place)

def engine (requests : List Request) : Engine Step Value Text Attempt where
  limit
    | .validateBatch => 1
    | .compileChunk _ => 2
    | .updateBatchMetrics => 1
  attempt
    | _,.interrupted error => .error error
    | .validateBatch,.carried _ => validate [] requests
    | .compileChunk chunkNumber,.carried given => .ok (compileChunk requests given (chunkNumber-1))
    | .updateBatchMetrics,.carried _ => .ok ()

structure BatchWorkflowResult where
  batchId : Text
  totalRequests : Nat
  successful : Nat
  failed : Int
  results : List WorkflowCompilationResult
  deriving DecidableEq

-- The variables of run.
structure Progress where
  results : List WorkflowCompilationResult
  successful : Nat
  failed : Nat

def Progress.aggregate (progress : Progress) (r : WorkflowCompilationResult) : Progress where
  results := progress.results ++ [r]
  successful := if r.success then progress.successful+1 else progress.successful
  failed := if r.success then progress.failed else progress.failed+1

section Run
variable (batchId : Text) (requests : List Request)

def completed (progress : Progress) : BatchWorkflowResult :=
  ⟨batchId,requests.length,progress.successful,progress.failed,progress.results⟩

-- The catch clause.
def aborted (progress : Progress) : BatchWorkflowResult :=
  ⟨batchId,requests.length,progress.successful,requests.length-progress.successful,progress.results⟩

-- The loop over the chunks, of which left have not been compiled.
def compileChunks (progress : Progress) (chunkIndex : Nat) : Nat → Flow Step Value Text BatchWorkflowResult
  | 0 => .step .updateBatchMetrics fun
    | .error _ => .done (aborted batchId requests progress)
    | .ok _ => .done (completed batchId requests progress)
  | left+1 => .step (.compileChunk (chunkIndex+1)) fun
    | .error _ => .done (aborted batchId requests progress)
    | .ok chunkResults => compileChunks (chunkResults.foldl Progress.aggregate progress) (chunkIndex+1) left

def workflow : Flow Step Value Text BatchWorkflowResult :=
  .step .validateBatch fun
    | .error _ => .done (aborted batchId requests ⟨[],0,0⟩)
    | .ok _ => compileChunks batchId requests ⟨[],0,0⟩ 0 (chunkCount requests)

end Run

-- What validate-batch asks of a batch.
structure Valid (requests : List Request) : Prop where
  identified : ∀ req ∈ requests, req.id ≠ []
  named : ∀ req ∈ requests, req.configName ≠ []
  sourced : ∀ req ∈ requests, req.sources ≠ []
  distinct : (requests.map (·.id)).Nodup

theorem validate_exact (ids : List Text) (requests : List Request) :
    validate ids requests = .ok () ↔ Valid requests ∧ ∀ req ∈ requests, req.id ∉ ids := by
  induction requests generalizing ids with
  | nil =>
    constructor
    · intro _
      exact ⟨⟨by simp,by simp,by simp,List.nodup_nil⟩,by simp⟩
    · intro _
      rfl
  | cons req rest ih =>
    rw [validate]
    constructor
    · intro accepted
      split at accepted
      · cases accepted
      · split at accepted
        · cases accepted
        · split at accepted
          · cases accepted
          · split at accepted
            · cases accepted
            · obtain ⟨valid,fresh⟩ := (ih _).mp accepted
              rename_i identified unseen named sourced
              refine ⟨⟨?_,?_,?_,?_⟩,?_⟩
              · exact List.forall_mem_cons.mpr ⟨identified,valid.identified⟩
              · exact List.forall_mem_cons.mpr ⟨named,valid.named⟩
              · exact List.forall_mem_cons.mpr ⟨sourced,valid.sourced⟩
              · refine List.nodup_cons.mpr ⟨?_,valid.distinct⟩
                intro again
                obtain ⟨other,member,same⟩ := List.mem_map.mp again
                exact fresh other member (same ▸ List.mem_cons_self)
              · refine List.forall_mem_cons.mpr ⟨unseen,?_⟩
                intro other member seen
                exact fresh other member (List.mem_cons_of_mem _ seen)
    · intro holds
      obtain ⟨valid,fresh⟩ := holds
      obtain ⟨identified,identified'⟩ := List.forall_mem_cons.mp valid.identified
      obtain ⟨named,named'⟩ := List.forall_mem_cons.mp valid.named
      obtain ⟨sourced,sourced'⟩ := List.forall_mem_cons.mp valid.sourced
      obtain ⟨unseen,fresh'⟩ := List.forall_mem_cons.mp fresh
      obtain ⟨new,distinct⟩ := List.nodup_cons.mp valid.distinct
      rw [if_neg identified,if_neg unseen,if_neg named,if_neg sourced]
      refine (ih _).mpr ⟨⟨identified',named',sourced',distinct⟩,?_⟩
      intro other member seen
      obtain same | before := List.mem_cons.mp seen
      · exact new (List.mem_map.mpr ⟨other,member,same⟩)
      · exact fresh' other member before

theorem chunks_prefix (requests : List Request) (count : Nat) :
    (List.range count).flatMap (chunk requests) = requests.take (count*MAX_CONCURRENT) := by
  induction count with
  | zero => simp
  | succ count ih =>
    rw [List.range_succ,List.flatMap_append,ih,Nat.succ_mul,List.take_add]
    simp [chunk]

theorem chunks_all (requests : List Request) : requests.take (chunkCount requests*MAX_CONCURRENT) = requests := by
  apply List.take_of_length_le
  unfold chunkCount MAX_CONCURRENT
  omega

-- A result is what a compilation of the request at its place gives.
def Compiled (request : Request) (result : WorkflowCompilationResult) : Prop := ∃ given, result = request.compile given

def Served (requests : List Request) (results : List WorkflowCompilationResult) : Prop :=
  List.Forall₂ Compiled requests results

theorem compileChunk_served (requests : List Request) (given : Nat → Given) (index : Nat) :
    Served (chunk requests index) (compileChunk requests given index) := by
  refine List.forall₂_iff_get.mpr ⟨?_,?_⟩
  · simp [compileChunk]
  · intro place inside inside'
    exact ⟨given place,by simp [compileChunk]⟩

-- The counters tell of the results.
structure Progress.Counts (progress : Progress) : Prop where
  successful : progress.successful = progress.results.countP (·.success)
  failed : progress.failed = progress.results.countP (!·.success)

theorem aggregate_counts {progress : Progress} (counts : progress.Counts) (r : WorkflowCompilationResult) : (progress.aggregate r).Counts := by
  cases success : r.success with
  | true => exact ⟨by simp [Progress.aggregate,success,counts.successful],by simp [Progress.aggregate,success,counts.failed]⟩
  | false => exact ⟨by simp [Progress.aggregate,success,counts.successful],by simp [Progress.aggregate,success,counts.failed]⟩

theorem chunk_counts {progress : Progress} (counts : progress.Counts) (chunkResults : List WorkflowCompilationResult) :
    (chunkResults.foldl Progress.aggregate progress).Counts := by
  induction chunkResults generalizing progress with
  | nil => exact counts
  | cons r rest ih => exact ih (aggregate_counts counts r)

theorem chunk_results (progress : Progress) (chunkResults : List WorkflowCompilationResult) :
    (chunkResults.foldl Progress.aggregate progress).results = progress.results ++ chunkResults := by
  induction chunkResults generalizing progress with
  | nil => simp
  | cons r rest ih =>
    rw [List.foldl_cons,ih]
    simp [Progress.aggregate]

theorem counts_total {progress : Progress} (counts : progress.Counts) : progress.successful+progress.failed = progress.results.length := by
  have parts := List.length_eq_countP_add_countP (fun r : WorkflowCompilationResult => r.success) (l := progress.results)
  rw [counts.successful,counts.failed,parts]
  simp

-- What the batch returns, in whatever way its steps end.
structure Accounts (requests : List Request) (result : BatchWorkflowResult) : Prop where
  total : result.totalRequests = requests.length
  balanced : (result.successful : Int)+result.failed = requests.length
  successes : result.successful = result.results.countP (·.success)
  served : Served (requests.take result.results.length) result.results
  wholeChunks : result.results.length = requests.length ∨ MAX_CONCURRENT ∣ result.results.length
  validated : result.results ≠ [] → Valid requests

section Loop
variable {batchId : Text} {requests : List Request}

structure Reaches (requests : List Request) (progress : Progress) (chunkIndex : Nat) : Prop where
  counts : progress.Counts
  served : Served (requests.take (chunkIndex*MAX_CONCURRENT)) progress.results

theorem reaches_length (reaches : Reaches requests progress chunkIndex) :
    progress.results.length = min (chunkIndex*MAX_CONCURRENT) requests.length := by
  rw [← reaches.served.length_eq,List.length_take]

theorem reaches_served (reaches : Reaches requests progress chunkIndex) : Served (requests.take progress.results.length) progress.results := by
  have same : requests.take progress.results.length = requests.take (chunkIndex*MAX_CONCURRENT) := by
    simp [List.take_eq_take_iff,reaches_length reaches]
  rw [same]
  exact reaches.served

theorem reaches_chunk (reaches : Reaches requests progress chunkIndex) (given : Nat → Given) :
    Reaches requests ((compileChunk requests given chunkIndex).foldl Progress.aggregate progress) (chunkIndex+1) := by
  refine ⟨chunk_counts reaches.counts _,?_⟩
  rw [chunk_results,Nat.succ_mul,List.take_add]
  exact List.rel_append reaches.served (compileChunk_served requests given chunkIndex)

theorem reaches_whole (reaches : Reaches requests progress chunkIndex) :
    progress.results.length = requests.length ∨ MAX_CONCURRENT ∣ progress.results.length := by
  rw [reaches_length reaches]
  obtain short | long := Nat.le_total (chunkIndex*MAX_CONCURRENT) requests.length
  · right
    rw [Nat.min_eq_left short]
    exact Nat.dvd_mul_left ..
  · exact .inl (Nat.min_eq_right long)

theorem aborted_accounts (valid : Valid requests) (reaches : Reaches requests progress chunkIndex) :
    Accounts requests (aborted batchId requests progress) := by
  refine ⟨rfl,?_,reaches.counts.successful,reaches_served reaches,reaches_whole reaches,fun _ => valid⟩
  change (progress.successful : Int)+(requests.length-progress.successful) = requests.length
  omega

theorem completed_accounts (batchId : Text) (valid : Valid requests) (reaches : Reaches requests progress (chunkCount requests)) :
    Accounts requests (completed batchId requests progress) ∧ (completed batchId requests progress).results.length = requests.length := by
  have length : progress.results.length = requests.length := by
    have served := reaches.served
    rw [chunks_all] at served
    exact served.length_eq.symm
  refine ⟨⟨rfl,?_,reaches.counts.successful,reaches_served reaches,reaches_whole reaches,fun _ => valid⟩,length⟩
  have total := counts_total reaches.counts
  change (progress.successful : Int)+progress.failed = requests.length
  omega

variable {given : Step → Attempt}

abbrev ends (requests : List Request) (given : Step → Attempt) : Answers Step Value Text := fun key => (engine requests).attempt key (given key)

theorem loop_accounts (batchId : Text) (given : Step → Attempt) (valid : Valid requests) (reaches : Reaches requests progress chunkIndex)
    (left : Nat) (rest : chunkIndex+left = chunkCount requests) :
    Accounts requests ((compileChunks batchId requests progress chunkIndex left).eval (ends requests given)) ∧
      ((∀ key, (compileChunks batchId requests progress chunkIndex left).Asks (ends requests given) key → ∃ value, ends requests given key = .ok value) →
        ((compileChunks batchId requests progress chunkIndex left).eval (ends requests given)).results.length = requests.length) := by
  induction left generalizing progress chunkIndex with
  | zero =>
    obtain rfl : chunkIndex = chunkCount requests := rest
    rw [compileChunks,Flow.eval]
    cases ended : ends requests given .updateBatchMetrics with
    | error error =>
      refine ⟨aborted_accounts valid reaches,fun _ => ?_⟩
      exact (completed_accounts batchId valid reaches).2
    | ok _ =>
      obtain ⟨accounts,all⟩ := completed_accounts batchId valid reaches
      exact ⟨accounts,fun _ => all⟩
  | succ left ih =>
    rw [compileChunks,Flow.eval]
    cases ended : ends requests given (.compileChunk (chunkIndex+1)) with
    | error error =>
      refine ⟨aborted_accounts valid reaches,fun fine => ?_⟩
      obtain ⟨value,same⟩ := fine (.compileChunk (chunkIndex+1)) (.inl rfl)
      rw [ended] at same
      cases same
    | ok chunkResults =>
      have carried : ∃ given, chunkResults = compileChunk requests given chunkIndex := by
        unfold ends engine at ended
        cases attempt : given (.compileChunk (chunkIndex+1)) with
        | interrupted error =>
          rw [attempt] at ended
          cases ended
        | carried given =>
          rw [attempt] at ended
          exact ⟨given,(Except.ok.inj ended).symm⟩
      obtain ⟨given,rfl⟩ := carried
      obtain ⟨accounts,all⟩ := ih (reaches_chunk reaches given) (by omega)
      refine ⟨accounts,fun fine => all fun key asked => fine key (.inr ?_)⟩
      rw [ended]
      exact asked

end Loop

theorem workflow_accounts (batchId : Text) (requests : List Request) (given : Step → Attempt) :
    Accounts requests ((workflow batchId requests).eval (ends requests given)) ∧
      ((∀ key, (workflow batchId requests).Asks (ends requests given) key → ∃ value, ends requests given key = .ok value) →
        ((workflow batchId requests).eval (ends requests given)).results.length = requests.length) := by
  have start : Reaches requests ⟨[],0,0⟩ 0 := ⟨⟨rfl,rfl⟩,by simp [Served]⟩
  rw [workflow,Flow.eval]
  cases ended : ends requests given .validateBatch with
  | error error =>
    refine ⟨⟨rfl,?_,rfl,?_,.inr (Nat.dvd_zero _),fun some_ => absurd rfl some_⟩,fun fine => ?_⟩
    · change ((0 : Nat) : Int)+(requests.length-(0 : Nat)) = requests.length
      omega
    · change Served (requests.take 0) []
      simp [Served]
    · obtain ⟨value,same⟩ := fine .validateBatch (.inl rfl)
      rw [ended] at same
      cases same
  | ok _ =>
    have valid : Valid requests := by
      unfold ends engine at ended
      cases attempt : given .validateBatch with
      | interrupted error =>
        rw [attempt] at ended
        cases ended
      | carried given =>
        rw [attempt] at ended
        exact ((validate_exact [] requests).mp ended).1
    obtain ⟨accounts,all⟩ := loop_accounts batchId given valid start (chunkCount requests) (Nat.zero_add _)
    refine ⟨accounts,fun fine => all fun key asked => fine key (.inr ?_)⟩
    rw [ended]
    exact asked

-- However often the isolate is lost, and however the attempts of the steps end,
-- the batch can still be brought to its end. When it returns, it accounts for all
-- its requests; none is missing when no step has thrown; and it never returns
-- anything else.
theorem batch_recovers (batchId : Text) (requests : List Request)
    (ran : run (step (engine requests) (workflow batchId requests)) initial events = some s) :
    (∃ more t result, run (step (engine requests) (workflow batchId requests)) s more = some t ∧ t.Completes result) ∧
      ∀ more t result, run (step (engine requests) (workflow batchId requests)) s more = some t → t.Completes result →
        Accounts requests result ∧
          ((∀ key outcome, t.records key = some outcome → ∃ value, outcome = .ok value) → result.results.length = requests.length) ∧
          ∀ again u other, run (step (engine requests) (workflow batchId requests)) t again = some u → u.Completes other →
            other = result := by
  refine ⟨never_stuck s,?_⟩
  intro more t result reached completes
  have whole := run_append.mpr ⟨s,ran,reached⟩
  obtain ⟨given,rfl,asked⟩ := completes_eval whole completes
  obtain ⟨accounts,all⟩ := workflow_accounts batchId requests given
  refine ⟨accounts,fun fine => all fun key asks => fine key _ (asked key asks),?_⟩
  intro again u other later returned
  exact completes_once whole completes later returned

-- Two lists of which one does not compile: the isolate is lost once before and
-- once after their chunk has ended.
def twoLists : List Request := ["a","b"].map fun id => {
  id := id.toList
  configuration := [("name".toList,.string id.toList),("sources".toList,.array [.null])]
  preFetchedContent := [(id.toList,[])] }

def oneFails : Attempt := .carried fun place => ⟨if place = 0 then .ok ["||ads.example^".toList] else .error "no rules".toList,.ok ()⟩

def lostTwice : List (Event Attempt) :=
  [.start,.attempt oneFails,.answer,.attempt (.interrupted "timeout".toList),.lost,.start,.answer,.attempt oneFails,.answer,.lost,
    .start,.answer,.answer,.attempt oneFails,.answer]

def lostTwiceResult : BatchWorkflowResult where
  batchId := []
  totalRequests := 2
  successful := 1
  failed := 1
  results := [
    { success := true, requestId := ['a'], configName := ['a'], rules := some ["||ads.example^".toList], ruleCount := some 1 },
    { success := false, requestId := ['b'], configName := ['b'], error := some "no rules".toList }]

theorem lostTwice_recovers : ∃ s, run (step (engine twoLists) (workflow [] twoLists)) initial lostTwice = some s ∧
    s.Completes lostTwiceResult ∧ Accounts twoLists lostTwiceResult := by
  have reached : (run (step (engine twoLists) (workflow [] twoLists)) initial lostTwice).bind State.running = some (.done lostTwiceResult) := rfl
  obtain ⟨s,ran,completes⟩ := Option.bind_eq_some_iff.mp reached
  exact ⟨s,ran,completes,((batch_recovers [] twoLists ran).2 [] s lostTwiceResult rfl completes).1⟩

end AdblockCompiler.BatchCompilation
