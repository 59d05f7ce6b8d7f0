import AdblockCompiler.Queue

-- Looking up an accepted job by the id its client was given.
namespace AdblockCompiler.Queue
open JsText JsonText Schedules CacheKeys CompileRequest
open Pending (CompilationResult CacheRead)

-- What the two gets of handleQueueResults settle with, where they fail.
structure LookupEnvironment where
  statsFail : Bool
  cacheFails : Bool

structure FinishedJob where
  configName : Text
  duration : Nat
  timestamp : Nat
  deriving DecidableEq, Repr

inductive ResultsResponse where
  | badRequest (message : Text)
  | notFound
  | notCompleted (status : JobStatus) (job : FinishedJob) (error : Option Text)
  | noCache
  | cacheMiss
  | completed (rules : List Text) (ruleCount : Nat) (compiledAt : Option Text) (job : FinishedJob)
  | serverError (message : Text)
  deriving DecidableEq, Repr

def historyOf (stats : Option QueueStats) : List JobHistoryEntry :=
  match stats with
  | none => []
  | some stats => stats.history

def JobHistoryEntry.finished (job : JobHistoryEntry) : FinishedJob := ⟨job.configName,job.duration,job.timestamp⟩

-- result.ruleCount || result.rules?.length || 0
def resultCount (result : CompilationResult) : Nat :=
  match result.ruleCount with
  | none | some 0 => (result.rules.getD []).length
  | some count => count

def handleQueueResults (env : LookupEnvironment) (requestId : Text) (store : Store) : ResultsResponse :=
  if requestId = [] then .badRequest "Invalid request ID".toList
  else
    let history := if env.statsFail then [] else historyOf store.read
    match history.find? fun job => decide (job.requestId = requestId) with
    | none => .notFound
    | some job =>
      if job.status ≠ .completed then .notCompleted job.status job.finished job.error
      else
        match job.cacheKey with
        | none | some [] => .noCache
        | some cacheKey =>
          if env.cacheFails then .serverError "Failed to decompress cached result".toList
          else
            match store.cache.get (store.now/1000) cacheKey with
            | .missed => .cacheMiss
            | .unreadable | .failed _ => .serverError "Failed to decompress cached result".toList
            | .hit result => .completed (result.rules.getD []) (resultCount result) result.compiledAt job.finished

-- All the entries that were ever put, newest first.
def Record.entry : Record → Option JobHistoryEntry
  | .updated update taken => update.entry taken
  | .compiling _ | .cached _ _ => none

def entries (log : List Record) : List JobHistoryEntry := log.filterMap Record.entry

-- Where the first entry of the id stands.
def place (requestId : Text) (history : List JobHistoryEntry) : Option Nat :=
  history.findIdx? fun job => decide (job.requestId = requestId)

-- How many entries came after the last one of the id.
def later (requestId : Text) (log : List Record) : Nat := (entries log).findIdx fun job => decide (job.requestId = requestId)

-- Where one history has an entry of the id, the other has one, no further down.
def retains (requestId : Text) (history other : List JobHistoryEntry) : Bool :=
  match place requestId history with
  | none => true
  | some i => (place requestId other).any fun k => decide (k ≤ i)

-- A call does not put statistics that lack the entry of the id, or have it
-- further down, over statistics with the entry.
def Call.retains (requestId : Text) (store : Store) (call : Call) : Bool :=
  match call.progress with
  | .writing existing _ => Queue.retains requestId (historyOf store.read) (historyOf existing)
  | _ => true

def Task.call : Task → Option Call
  | .updating call _ => some call
  | _ => none

-- The condition under which the id stays in the statistics: they do not expire
-- with the entry in them, the get and the put of the job's own update succeed,
-- and no other update is put over the entry that was got before it.
def keeps (requestId : Text) (s : State) : Event → Bool
  | .passes milliseconds =>
    retains requestId (historyOf s.store.read) (historyOf { s.store with now := s.store.now+milliseconds }.read)
  | .enqueues p (.written false) => (s.producers[p]?).all (Call.retains requestId s.store)
  | .job m j (.updates (.read fails)) => (s.job m j).all fun job => decide (job.message.requestId ≠ requestId) || !fails
  | .job m j (.updates (.written fails)) =>
    (s.job m j).all fun job =>
      if job.message.requestId = requestId then !fails else fails || job.task.call.all (Call.retains requestId s.store)
  | _ => true

variable {requestId : Text} {platform : Platform} {s t : State}

theorem retains_exact : retains requestId history other = true ↔
    ∀ i, place requestId history = some i → ∃ k ≤ i, place requestId other = some k := by
  unfold retains
  cases place requestId history with
  | none => simp
  | some i => simp [Option.any_eq_true,and_comm]

-- Among the last entries the statistics hold that of the id.
def Recorded (requestId : Text) (store : Store) : Prop :=
  ∀ n, place requestId (entries store.log) = some n → n < historyLimit → ∃ i ≤ n, place requestId (historyOf store.read) = some i

theorem place_cons (entry : JobHistoryEntry) (history : List JobHistoryEntry) : place requestId (entry :: history) =
    if entry.requestId = requestId then some 0 else (place requestId history).map (·+1) := by
  simp [place,List.findIdx?_cons]

theorem place_take (found : place requestId history = some i) (bound : i < n) : place requestId (history.take n) = some i := by
  unfold place at found ⊢
  rw [List.findIdx?_take,found]
  simp [Option.guard,bound]

theorem entries_append (newer log : List Record) : entries (newer ++ log) = entries newer ++ entries log := List.filterMap_append

theorem recorded_write {store : Store} (recorded : Recorded requestId store) (existing : Option QueueStats) (update : Update)
    (taken : Nat) (kept : (∃ entry, update.entry taken = some entry ∧ entry.requestId = requestId) ∨
      retains requestId (historyOf store.read) (historyOf existing) = true) :
    Recorded requestId (store.write existing update taken) := by
  have before : (existing.getD (createEmptyQueueStats taken)).history = historyOf existing := by
    cases existing with
    | none => rfl
    | some stats => rfl
  have after := updateQueueStats_history existing update taken
  rw [before] at after
  have logged : entries (store.write existing update taken).log = entries (.updated update taken :: store.log) := rfl
  intro n found bound
  rw [read_write]
  change ∃ i ≤ n, place requestId (updateQueueStats existing update taken).history = some i
  rw [after]
  rw [logged,entries,List.filterMap_cons,Record.entry] at found
  cases added : update.entry taken with
  | none =>
    rw [added] at found
    rcases kept with ⟨entry,some,-⟩ | kept
    · rw [added] at some
      cases some
    · obtain ⟨i,least,stands⟩ := recorded n found bound
      obtain ⟨k,up,other⟩ := retains_exact.mp kept i stands
      exact ⟨k,Nat.le_trans up least,other⟩
  | some entry =>
    rw [added] at found
    dsimp only at found ⊢
    rw [place_cons] at found
    by_cases own : entry.requestId = requestId
    · refine ⟨0,Nat.zero_le n,place_take ?_ (by decide)⟩
      rw [place_cons,if_pos own]
    · rw [if_neg own] at found
      obtain ⟨p,earlier,rfl⟩ := Option.map_eq_some_iff.mp found
      rcases kept with ⟨other,some,same⟩ | kept
      · rw [added] at some
        exact absurd (Option.some.inj some ▸ same) own
      · obtain ⟨i,least,stands⟩ := recorded p earlier (Nat.lt_of_succ_lt bound)
        obtain ⟨k,up,other⟩ := retains_exact.mp kept i stands
        have above : k+1 < historyLimit := by omega
        refine ⟨k+1,by omega,place_take ?_ above⟩
        rw [place_cons,if_neg own,other]
        rfl

theorem recorded_same {store after : Store} (recorded : Recorded requestId store) (logged : entries after.log = entries store.log)
    (read : after.read = store.read) : Recorded requestId after := by
  intro n found bound
  rw [logged] at found
  rw [read]
  exact recorded n found bound

theorem update_entry {job : Job} (own : job.Own) (updating : job.task = .updating call error) (named : job.message.requestId ≠ [])
    (taken : Nat) : ∃ entry, call.update.entry taken = some entry ∧ entry.requestId = job.message.requestId := by
  obtain ⟨c,rest,same⟩ := List.exists_cons_of_ne_nil named
  rcases own call error updating with ⟨-,rules,cacheKey,duration,update⟩ | ⟨thrown,duration,-,update⟩
  · rw [update]
    simp [completedUpdate,Update.entry,same]
  · rw [update]
    simp [failedUpdate,Update.entry,same]

theorem proceed_entries (s : State) (m : Nat) (message : Message) (rest : List CompileQueueMessage) (stats : ChunkStats) :
    entries (s.proceed platform m message rest stats).store.log = entries s.store.log := by
  have none : entries ((rest.take chunkSize).map fun message => Record.compiling message.requestId).reverse = [] := by
    rw [entries,List.filterMap_eq_nil_iff]
    intro record member
    obtain ⟨one,-,rfl⟩ := List.mem_map.mp (List.mem_reverse.mp member)
    rfl
  rw [proceed_log,entries_append,none]
  rfl

theorem proceed_read (s : State) (m : Nat) (message : Message) (rest : List CompileQueueMessage) (stats : ChunkStats) :
    (s.proceed platform m message rest stats).store.read = s.store.read := by
  cases rest with
  | nil => rfl
  | cons first rest => rfl

theorem recorded_step (owned : Owned s) (named : requestId ≠ []) (recorded : Recorded requestId s.store)
    (kept : keeps requestId s event = true) (stepped : step platform s event = some t) : Recorded requestId t.store := by
  cases step_cases stepped with
  | compileSent | batchSent | came => exact recorded
  | passed =>
    intro n found bound
    obtain ⟨i,least,stands⟩ := recorded n found bound
    obtain ⟨k,up,other⟩ := retains_exact.mp kept i stands
    exact ⟨k,Nat.le_trans up least,other⟩
  | cancelled => exact recorded_same recorded (congrArg entries (cancel_log _ _ _)) (cancel_read _ _ _)
  | delivered | settled => exact recorded_same recorded (proceed_entries _ _ _ _ _) (proceed_read _ _ _ _ _)
  | @enqueued p call next event store found went =>
    cases call_step_cases went with
    | got | missed | dropped => exact recorded
    | put writing =>
      apply recorded_write recorded
      right
      simpa [keeps,found,Call.retains,writing] using kept
  | @worked m j message work job next event store found busy place went =>
    have placed := job_found found busy place
    have own := owned.jobs m message work found busy job (List.mem_of_getElem? place)
    cases job_step_cases went with
    | kept | unkept | failed => exact recorded
    | @cached _ _ _ fails caching =>
      cases fails with
      | true => exact recorded
      | false => exact recorded_same recorded rfl rfl
    | called updating change =>
      cases change with
      | got | missed | dropped => exact recorded
      | put writing =>
        apply recorded_write recorded
        by_cases same : job.message.requestId = requestId
        · subst same
          exact .inl (update_entry own updating named _)
        · right
          simpa [keeps,placed,same,Task.call,updating,Call.retains,writing] using kept

-- The message has a job of the id that no delivery has settled yet.
structure Message.Outstanding (requestId : Text) (message : Message) : Prop where
  unprocessed : message.processed = 0
  pending : ∀ work, message.phase = .processing work → requestId ∈ work.rest.map CompileQueueMessage.requestId ∨
    ∃ job ∈ work.chunk, job.outcome = none ∧ job.message.requestId = requestId

def Unsettled (requestId : Text) (messages : List Message) : Prop :=
  ∀ message ∈ messages, requestId ∈ message.body.jobIds → message.Outstanding requestId

-- Either the id has an entry, or all its messages are yet to be processed.
def Tracked (requestId : Text) (s : State) : Prop :=
  place requestId (entries s.store.log) ≠ none ∨ Unsettled requestId s.messages

theorem place_append (newer older : List JobHistoryEntry) (seen : place requestId older ≠ none) :
    place requestId (newer ++ older) ≠ none := by
  intro absent
  apply seen
  rw [place,List.findIdx?_eq_none_iff] at absent ⊢
  intro entry member
  exact absent entry (List.mem_append_right newer member)

theorem place_written (added : update.entry taken = some entry) (own : entry.requestId = requestId) :
    place requestId (entries (.updated update taken :: log)) ≠ none := by
  rw [entries,List.filterMap_cons,Record.entry,added]
  dsimp only
  rw [place_cons,if_pos own]
  exact Option.some_ne_none 0

theorem outstanding_proceed {message : Message} {store : Store} (unprocessed : message.processed = 0)
    (member : requestId ∈ rest.map CompileQueueMessage.requestId) :
    (message.proceed platform store rest stats).1.Outstanding requestId := by
  cases rest with
  | nil => cases member
  | cons first rest =>
    refine ⟨unprocessed,?_⟩
    intro work busy
    rw [proceed_chunk busy]
    obtain ⟨one,present,named⟩ := List.mem_map.mp member
    rw [← List.take_append_drop chunkSize (first :: rest)] at present
    rcases List.mem_append.mp present with taken | left
    · exact .inr ⟨.begin store.now one,List.mem_map_of_mem taken,rfl,named⟩
    · exact .inl (List.mem_map.mpr ⟨one,left,named⟩)

theorem unsettled_sent (unsettled : Unsettled requestId messages) (body : Body) : Unsettled requestId (messages ++ [.fresh body]) := by
  intro message member held
  rcases List.mem_append.mp member with old | new
  · exact unsettled message old held
  · obtain rfl := List.mem_singleton.mp new
    exact ⟨rfl,fun work busy => Phase.noConfusion busy⟩

-- A step of one job leaves the message with an unsettled one, unless it is the
-- job of the id that ends.
theorem outstanding_worked {message : Message} {work : Processing} {job next : Job}
    (outstanding : message.Outstanding requestId) (busy : message.phase = .processing work) (stands : work.chunk[j]? = some job)
    (same : next.message = job.message) (open_ : ¬(job.message.requestId = requestId ∧ next.outcome ≠ none)) :
    Message.Outstanding requestId { message with phase := .processing { work with chunk := work.chunk.set j next } } := by
  refine ⟨outstanding.unprocessed,?_⟩
  intro other processing
  cases processing
  rcases outstanding.pending work busy with waiting | ⟨one,member,live,entitled⟩
  · exact .inl waiting
  · right
    obtain ⟨k,among⟩ := List.mem_iff_getElem?.mp member
    by_cases here : k = j
    · subst here
      obtain rfl : one = job := Option.some.inj (among.symm.trans stands)
      refine ⟨next,List.mem_of_getElem? (placed_set stands next),?_,(congrArg _ same).trans entitled⟩
      by_contra ended
      exact open_ ⟨entitled,ended⟩
    · have still : (work.chunk.set j next)[k]? = some one := (List.getElem?_set_ne (Ne.symm here)).trans among
      exact ⟨one,List.mem_of_getElem? still,live,entitled⟩

theorem tracked_step (owned : Owned s) (named : requestId ≠ []) (tracked : Tracked requestId s)
    (kept : keeps requestId s event = true) (stepped : step platform s event = some t) : Tracked requestId t := by
  rcases tracked with seen | unsettled
  · obtain ⟨newer,grown,-,-⟩ := step_log stepped
    left
    rw [grown,entries_append]
    exact place_append _ _ seen
  · cases step_cases stepped with
    | passed | cancelled | enqueued => exact .inr unsettled
    | compileSent | batchSent | came => exact .inr (unsettled_sent unsettled _)
    | @delivered m message randoms found ready =>
      right
      apply forall_set unsettled
      intro held
      rw [proceed_body] at held
      have outstanding := unsettled message (List.mem_of_getElem? found) held
      exact outstanding_proceed outstanding.unprocessed (jobIds_jobs held _ _)
    | @settled m message work found busy all =>
      right
      apply forall_set unsettled
      intro held
      rw [proceed_body] at held
      have outstanding := unsettled message (List.mem_of_getElem? found) held
      rcases outstanding.pending work busy with waiting | ⟨job,member,live,-⟩
      · exact outstanding_proceed outstanding.unprocessed waiting
      · have settled := all job member
        rw [live] at settled
        cases settled
    | @worked m j message work job next event store found busy stands went =>
      have placed := job_found found busy stands
      have own := owned.jobs m message work found busy job (List.mem_of_getElem? stands)
      by_cases ends : job.message.requestId = requestId ∧ next.outcome ≠ none
      · left
        obtain ⟨same,ends⟩ := ends
        subst same
        cases job_step_cases went with
        | kept | unkept | failed | cached => exact absurd rfl ends
        | called updating change =>
          cases change with
          | got => exact absurd rfl ends
          | missed => simp [keeps,placed] at kept
          | dropped => simp [keeps,placed] at kept
          | put writing =>
            obtain ⟨entry,added,entitled⟩ := update_entry own updating named _
            exact place_written added entitled
      · right
        apply forall_set unsettled
        intro held
        have outstanding := unsettled message (List.mem_of_getElem? found) held
        exact outstanding_worked outstanding busy stands (job_step_message went) ends

structure Followed (requestId : Text) (s : State) : Prop where
  owned : Owned s
  recorded : Recorded requestId s.store
  tracked : Tracked requestId s

theorem followed_start (now : Nat) : Followed requestId (start now) := by
  refine ⟨owned_start now,?_,.inr fun _ member => absurd member List.not_mem_nil⟩
  intro n found
  cases found

theorem followed_run (named : requestId ≠ []) (followed : Followed requestId s)
    (ran : run (guarded (keeps requestId) (step platform)) s events = some t) : Followed requestId t := by
  apply run_keeps (Followed requestId) _ followed ran
  intro u event next before taken
  obtain ⟨kept,stepped⟩ := guarded_step.mp taken
  exact ⟨owned_step before.owned stepped,recorded_step before.owned named before.recorded kept stepped,
    tracked_step before.owned named before.tracked kept stepped⟩

-- The request id with which the two handlers answer.
def answered (s : State) : Event → Option Text
  | .compileAsync _ random => some (generateRequestId "compile" s.store.now random)
  | .batchAsync _ random => some (generateRequestId "batch" s.store.now random)
  | _ => none

-- The id is that of a job of the request. A single request always has its own.
def names (requestId : Text) : Event → Bool
  | .batchAsync requests _ => decide (requestId ∈ requests.map BatchRequestItem.id)
  | _ => true

theorem answered_named (answer : answered s event = some requestId) : requestId ≠ [] := by
  cases event with
  | compileAsync request random =>
    cases answer
    exact List.cons_ne_nil _ _
  | batchAsync requests random =>
    cases answer
    exact List.cons_ne_nil _ _
  | passes | sent | cancel | enqueues | deliver | job | settles => cases answer

theorem answered_job (answer : answered s event = some requestId) (named : names requestId event = true)
    (stepped : step platform s event = some t) :
    ∃ message : Message, t.messages[s.messages.length]? = some message ∧ requestId ∈ message.body.jobIds := by
  cases step_cases stepped with
  | compileSent =>
    cases answer
    exact ⟨_,List.getElem?_concat_length,List.mem_singleton_self _⟩
  | batchSent accepted => exact ⟨_,List.getElem?_concat_length,of_decide_eq_true named⟩
  | passed | came | cancelled | enqueued | delivered | worked | settled => cases answer

theorem results_found {store : Store} (named : requestId ≠ []) (read : env.statsFail = false)
    (stands : place requestId (historyOf store.read) = some i) : handleQueueResults env requestId store ≠ .notFound := by
  have present : ((historyOf store.read).find? fun job => decide (job.requestId = requestId)) ≠ none := by
    intro absent
    rw [List.find?_eq_none] at absent
    have nowhere : place requestId (historyOf store.read) = none := by
      rw [place,List.findIdx?_eq_none_iff]
      intro entry member
      exact Bool.eq_false_of_not_eq_true (absent entry member)
    rw [nowhere] at stands
    cases stands
  unfold handleQueueResults
  rw [if_neg named,read]
  simp only [Bool.false_eq_true,if_false]
  split
  · contradiction
  · repeat' split
    all_goals exact ResultsResponse.noConfusion

-- An accepted job is found by the id that was answered, in every run that keeps
-- the id, if the id is that of one of its jobs.
theorem accepted_found (came : run (guarded (keeps requestId) (step platform)) (start now) before = some s)
    (answer : answered s event = some requestId) (named : names requestId event = true)
    (ran : run (guarded (keeps requestId) (step platform)) s (event :: events) = some t)
    (found : t.messages[s.messages.length]? = some message) (processed : 0 < message.processed)
    (few : later requestId t.store.log < historyLimit) (read : env.statsFail = false) :
    handleQueueResults env requestId t.store ≠ .notFound := by
  have entitled := answered_named answer
  have followed := followed_run entitled (followed_run entitled (followed_start now) came) ran
  obtain ⟨u,taken,after⟩ := run_cons.mp ran
  obtain ⟨first,place_,held⟩ := answered_job answer named (guarded_step.mp taken).2
  obtain ⟨last,located,body⟩ := body_run place_ (guarded_run after)
  obtain rfl : last = message := Option.some.inj (located.symm.trans found)
  rcases followed.tracked with seen | unsettled
  · obtain ⟨n,stands⟩ := Option.ne_none_iff_exists'.mp seen
    have few_ : n < historyLimit := (List.findIdx?_eq_some_iff_findIdx_eq.mp stands).2 ▸ few
    obtain ⟨i,-,there⟩ := followed.recorded n stands few_
    exact results_found entitled read there
  · have none := (unsettled last (List.mem_of_getElem? located) (body ▸ held)).unprocessed
    omega

-- A single job that compiles, and another sent and compiled behind it.
theorem single_found : ∃ s t, run (step plainPlatform) (start 0) [] = some s ∧
    run (step plainPlatform) s (sentAs 0 'x' ++ compiledAs 0 ++ sentAs 1 'y' ++ compiledAs 1) = some t ∧
    handleQueueResults ⟨false,false⟩ "compile-0-x".toList t.store ≠ .notFound := by
  obtain ⟨t,ends⟩ : ∃ t, run (guarded (keeps "compile-0-x".toList) (step plainPlatform)) (start 0)
      (sentAs 0 'x' ++ compiledAs 0 ++ sentAs 1 'y' ++ compiledAs 1) = some t := ⟨_,rfl⟩
  obtain ⟨message,found⟩ : ∃ message, t.messages[0]? = some message := by
    cases ends
    exact ⟨_,rfl⟩
  have processed : 0 < message.processed := by
    cases ends
    cases found
    decide
  have few : later "compile-0-x".toList t.store.log < historyLimit := by
    cases ends
    decide
  have came : run (guarded (keeps "compile-0-x".toList) (step plainPlatform)) (start 0) [] = some (start 0) := rfl
  exact ⟨start 0,t,rfl,guarded_run ends,accepted_found came rfl rfl ends found processed few rfl⟩

-- A batch is answered with an id that no entry of the history ever has.
def batchEvents : List Event :=
  countedAs 0 ++ .deliver 0 (fun _ => []) :: jobCompiled 0 0 ++ jobCompiled 0 1 ++ [.settles 0]

theorem batch_not_found : ¬∀ (platform : Platform) (now : Nat) (before events : List Event) (event : Event) (s t : State)
    (requestId : Text) (message : Message) (env : LookupEnvironment), run (step platform) (start now) before = some s →
    answered s event = some requestId → run (step platform) s (event :: events) = some t →
    t.messages[s.messages.length]? = some message → 0 < message.processed → later requestId t.store.log < historyLimit →
    handleQueueResults env requestId t.store ≠ .notFound := by
  intro always
  obtain ⟨t,ends⟩ : ∃ t, run (step plainPlatform) (start 0) (.batchAsync twoItems ['x'] :: batchEvents) = some t := ⟨_,rfl⟩
  obtain ⟨message,found⟩ : ∃ message, t.messages[0]? = some message := by
    cases ends
    exact ⟨_,rfl⟩
  have processed : 0 < message.processed := by
    cases ends
    cases found
    decide
  have few : later "batch-0-x".toList t.store.log < historyLimit := by
    cases ends
    decide
  apply always plainPlatform 0 [] batchEvents _ (start 0) t _ message ⟨false,false⟩ rfl rfl ends found processed few
  cases ends
  decide

end AdblockCompiler.Queue
