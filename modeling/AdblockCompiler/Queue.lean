import AdblockCompiler.CompileRequest
import AdblockCompiler.QueueStats

-- The compile queue: the handlers that send to it, its consumer, and the
-- handlers that cancel a job and look one up.
namespace AdblockCompiler.Queue
open JsText JsonText Schedules CacheKeys CompileRequest
open Pending (CompilationResult CacheRead)

-- The runtime's digest and dates, and how often the queue gives a message out
-- again before it drops it to the dead letter queue.
structure Platform where
  sha256 : Text → Digest
  isoDate : Nat → Text
  maxRetries : Nat

def configurationName (configuration : Json) : Text :=
  match field "name" configuration with
  | some (.string name) => name
  | _ => []

def generateRequestId (first : String) (now : Nat) (random : Text) : Text :=
  first.toList ++ '-' :: (toString now).toList ++ '-' :: random

-- An absent request id is kept as the empty text: updateQueueStats takes both
-- for none.
structure CompileQueueMessage where
  requestId : Text
  request : Request

structure BatchRequestItem where
  id : Text
  request : Request

inductive Body where
  | compile (message : CompileQueueMessage)
  | batchCompile (requestId : Text) (requests : List BatchRequestItem)
  | cacheWarm (requestId : Text) (configurations : List Json)
  | unknown (requestId : Text)

def Body.requestId : Body → Text
  | .compile message => message.requestId
  | .batchCompile requestId _ | .cacheWarm requestId _ | .unknown requestId => requestId

def BatchRequestItem.compileMessage (item : BatchRequestItem) : CompileQueueMessage := ⟨item.id,item.request⟩

-- The compile messages a message stands for, in order. Those of cache warming
-- get their ids here.
def Body.jobs (body : Body) (now : Nat) (randoms : Nat → Text) : List CompileQueueMessage :=
  match body with
  | .compile message => [message]
  | .batchCompile _ requests => requests.map BatchRequestItem.compileMessage
  | .cacheWarm _ configurations =>
    configurations.mapIdx fun i configuration => ⟨generateRequestId "cache-warm" now (randoms i),⟨configuration,none⟩⟩
  | .unknown _ => []

-- The ids of the jobs of a message, as far as the message gives them.
def Body.jobIds : Body → List Text
  | .compile message => [message.requestId]
  | .batchCompile _ requests => requests.map BatchRequestItem.id
  | .cacheWarm _ _ | .unknown _ => []

def Body.size : Body → Nat
  | .compile _ => 1
  | .batchCompile _ requests => requests.length
  | .cacheWarm _ configurations => configurations.length
  | .unknown _ => 0

theorem jobs_length (body : Body) (now : Nat) (randoms : Nat → Text) : (body.jobs now randoms).length = body.size := by
  cases body with
  | compile message => rfl
  | batchCompile requestId requests => exact List.length_map _
  | cacheWarm requestId configurations => exact List.length_mapIdx
  | unknown requestId => rfl

theorem jobIds_jobs {requestId : Text} {body : Body} (member : requestId ∈ body.jobIds) (now : Nat) (randoms : Nat → Text) :
    requestId ∈ (body.jobs now randoms).map CompileQueueMessage.requestId := by
  cases body with
  | compile message => exact member
  | batchCompile other requests =>
    rw [Body.jobs,List.map_map]
    exact member
  | cacheWarm other configurations => cases member
  | unknown other => cases member

-- The entry under queue:stats. KV forgets it when its time is over.
structure Stored where
  value : QueueStats
  expires : Nat

-- What was done, newest first. This is history.
inductive Record where
  | compiling (requestId : Text)
  | cached (requestId : Text) (cacheKey : Text)
  | updated (update : Update) (taken : Nat)
  deriving DecidableEq, Repr

-- METRICS and COMPILATION_CACHE. Of the cancel signals only the keys matter.
structure Store where
  now : Nat
  stats : Option Stored
  signals : List (Text × Nat)
  cache : Cache
  log : List Record

def kvTtl : Nat := 86400000

def Store.read (store : Store) : Option QueueStats :=
  match store.stats with
  | none => none
  | some stored => if store.now < stored.expires then some stored.value else none

def Store.write (store : Store) (existing : Option QueueStats) (update : Update) (taken : Nat) : Store :=
  { store with
    stats := some ⟨updateQueueStats existing update taken,store.now+kvTtl⟩
    log := .updated update taken :: store.log }

-- The cache counts in seconds.
def Store.putResult (store : Store) (message : CompileQueueMessage) (cacheKey : Text) (result : CompilationResult) : Store :=
  { store with
    cache := store.cache.put cacheKey ⟨some result,store.now/1000+cacheTtl⟩
    log := .cached message.requestId cacheKey :: store.log }

-- One call of updateQueueStats. It swallows the failures of its get and put.
inductive Progress where
  | reading
  | writing (existing : Option QueueStats) (taken : Nat)
  | done

structure Call where
  update : Update
  progress : Progress

inductive CallEvent where
  | read (fails : Bool)
  | written (fails : Bool)
  deriving DecidableEq, Repr

def Call.step (call : Call) (store : Store) : CallEvent → Option (Call × Store)
  | .read fails =>
    match call.progress with
    | .reading => some (⟨call.update,if fails then .done else .writing store.read store.now⟩,store)
    | _ => none
  | .written fails =>
    match call.progress with
    | .writing existing taken =>
      some (⟨call.update,.done⟩,if fails then store else store.write existing call.update taken)
    | _ => none

-- processCompileMessage, from one await to the next. A failure is thrown on
-- after its statistics are updated.
inductive Task where
  | compiling (since : Nat)
  | caching (since : Nat) (rules : List Text) (cacheKey : Text)
  | updating (call : Call) (error : Option Thrown)

structure Job where
  message : CompileQueueMessage
  task : Task

def Job.begin (now : Nat) (message : CompileQueueMessage) : Job := ⟨message,.compiling now⟩

inductive TaskEvent where
  | compiled (outcome : Except Thrown (List Text))
  | cached (fails : Bool)
  | updates (event : CallEvent)

def completedUpdate (message : CompileQueueMessage) (rules : List Text) (cacheKey : Option Text) (duration : Nat) : Update :=
  ⟨.completed,some duration,1,
    some ⟨some message.requestId,some (configurationName message.request.configuration),none,some rules.length,cacheKey⟩⟩

def failedUpdate (message : CompileQueueMessage) (error : Thrown) (duration : Nat) : Update :=
  ⟨.failed,some duration,1,
    some ⟨some message.requestId,some (configurationName message.request.configuration),some error,none,none⟩⟩

def Job.update (job : Job) (update : Update) (error : Option Thrown) : Job :=
  { job with task := .updating ⟨update,.reading⟩ error }

def Job.step (platform : Platform) (job : Job) (store : Store) : TaskEvent → Option (Job × Store)
  | .compiled outcome =>
    match job.task with
    | .compiling since =>
      let duration := store.now-since
      match outcome,job.message.request.cacheKey platform.sha256 with
      | .ok rules,some cacheKey => some ({ job with task := .caching since rules cacheKey },store)
      | .ok rules,none => some (job.update (completedUpdate job.message rules none duration) none,store)
      | .error error,_ => some (job.update (failedUpdate job.message error duration) (some error),store)
    | _ => none
  | .cached fails =>
    match job.task with
    | .caching since rules cacheKey =>
      -- A result that cannot be put is let go.
      let result := CompilationResult.compiled rules (platform.isoDate store.now)
      some (job.update (completedUpdate job.message rules (some cacheKey) (store.now-since)) none,
        if fails then store else store.putResult job.message cacheKey result)
    | _ => none
  | .updates event =>
    match job.task with
    | .updating call error =>
      (call.step store event).map fun part => ({ job with task := .updating part.1 error },part.2)
    | _ => none

-- Promise.allSettled has the job's outcome.
def Job.outcome (job : Job) : Option (Option Thrown) :=
  match job.task with
  | .updating ⟨_,.done⟩ error => some error
  | _ => none

structure ChunkStats where
  successful : Nat
  failed : Nat
  failures : List (Text × Thrown)
  deriving DecidableEq, Repr

def ChunkStats.collect (stats : ChunkStats) (job : Job) : ChunkStats :=
  match job.outcome with
  | some (some error) =>
    { stats with
      failed := stats.failed+1
      failures := stats.failures ++ [(configurationName job.message.request.configuration,error)] }
  | some none => { stats with successful := stats.successful+1 }
  | none => stats

-- processInChunks at work: a chunk running, and the items behind it. A single
-- compile message is a chunk of its own.
structure Processing where
  chunk : List Job
  rest : List CompileQueueMessage
  stats : ChunkStats

def chunkSize : Nat := 3

inductive Phase where
  | queued
  | processing (work : Processing)
  | acked
  | dead

-- processed and final are history: how many deliveries were seen through, and
-- whether the message was acknowledged or dropped.
structure Message where
  body : Body
  attempts : Nat
  phase : Phase
  processed : Nat
  final : Bool

def Message.fresh (body : Body) : Message := ⟨body,0,.queued,0,false⟩

-- handleQueue acknowledges what did not throw and has the rest retried.
def Message.finish (platform : Platform) (message : Message) (stats : ChunkStats) : Message :=
  if stats.failed = 0 then { message with phase := .acked, processed := message.processed+1, final := true }
  else if platform.maxRetries < message.attempts then { message with phase := .dead, processed := message.processed+1, final := true }
  else { message with phase := .queued, processed := message.processed+1 }

def Store.begin (store : Store) (messages : List CompileQueueMessage) : Store :=
  { store with log := (messages.map fun message => Record.compiling message.requestId).reverse ++ store.log }

-- The next chunk, or the end of the delivery.
def Message.proceed (platform : Platform) (message : Message) (store : Store) (rest : List CompileQueueMessage)
    (stats : ChunkStats) : Message × Store :=
  match rest with
  | [] => (message.finish platform stats,store)
  | _ :: _ =>
    let chunk := rest.take chunkSize
    ({ message with phase := .processing ⟨chunk.map (Job.begin store.now),rest.drop chunkSize,stats⟩ },store.begin chunk)

structure State where
  store : Store
  messages : List Message
  producers : List Call

def start (now : Nat) : State := ⟨⟨now,none,[],fun _ => none,[]⟩,[],[]⟩

-- BatchRequestAsyncSchema, past the shapes.
def acceptsBatch (requests : List BatchRequestItem) : Bool :=
  !requests.isEmpty && requests.all (fun item => !item.id.isEmpty) && decide (requests.map BatchRequestItem.id).Nodup &&
    decide (requests.length ≤ 100)

def enqueuedUpdate (count : Nat) : Update := ⟨.enqueued,none,count,none⟩

-- A send that went through; the caller is answered when its statistics are
-- updated.
def State.send (s : State) (body : Body) : State :=
  { s with
    messages := s.messages ++ [.fresh body]
    producers := s.producers ++ [⟨enqueuedUpdate body.size,.reading⟩] }

def queueCompileJob (s : State) (request : Request) (random : Text) : State :=
  s.send (.compile ⟨generateRequestId "compile" s.store.now random,request⟩)

def queueBatchCompileJob (s : State) (requests : List BatchRequestItem) (random : Text) : State :=
  s.send (.batchCompile (generateRequestId "batch" s.store.now random) requests)

-- What requireAuth, verifyCfAccessJwt and the put settle with.
structure CancelEnvironment where
  authError : Bool
  cfAccess : Option Text
  putFails : Option Thrown

inductive CancelResponse where
  | unauthorized
  | forbidden (error : Text)
  | badRequest (message : Text)
  | success (requestId : Text)
  deriving DecidableEq, Repr

def isRequestIdChar (c : Char) : Bool := c.isAlphanum || c == '_' || c == '-'

def cancelIssues (requestId : Text) : List Text :=
  (if requestId.isEmpty then ["requestId: requestId is required".toList] else []) ++
    if !requestId.isEmpty && requestId.all isRequestIdChar then [] else ["requestId: Invalid requestId format".toList]

def cancelKey (requestId : Text) : Text := "queue:cancel:".toList ++ requestId

def handleQueueCancel (env : CancelEnvironment) (requestId : Text) (store : Store) : Except Thrown CancelResponse × Store :=
  if env.authError then (.ok .unauthorized,store)
  else
    match env.cfAccess with
    | some error => (.ok (.forbidden error),store)
    | none =>
      match cancelIssues requestId with
      | [] =>
        match env.putFails with
        | some error => (.error error,store)
        | none => (.ok (.success requestId),{ store with signals := (cancelKey requestId,store.now+kvTtl) :: store.signals })
      | issues => (.ok (.badRequest ("; ".toList.intercalate issues)),store)

inductive Event where
  | passes (milliseconds : Nat)
  | compileAsync (request : Request) (random : Text)
  | batchAsync (requests : List BatchRequestItem) (random : Text)
  | sent (body : Body)
  | cancel (env : CancelEnvironment) (requestId : Text)
  | enqueues (p : Nat) (event : CallEvent)
  | deliver (m : Nat) (randoms : Nat → Text)
  | job (m j : Nat) (event : TaskEvent)
  | settles (m : Nat)

-- The queue delivers at least once: also what was acknowledged may come again.
def Phase.deliverable : Phase → Bool
  | .queued | .acked => true
  | .processing _ | .dead => false

def Message.attempt (message : Message) : Message := { message with attempts := message.attempts+1 }

def State.proceed (platform : Platform) (s : State) (m : Nat) (message : Message) (rest : List CompileQueueMessage)
    (stats : ChunkStats) : State :=
  let next := message.proceed platform s.store rest stats
  { s with store := next.2, messages := s.messages.set m next.1 }

def Message.work (message : Message) : Option Processing :=
  match message.phase with
  | .processing work => some work
  | _ => none

def step (platform : Platform) (s : State) : Event → Option State
  | .passes milliseconds => some { s with store := { s.store with now := s.store.now+milliseconds } }
  | .compileAsync request random => some (queueCompileJob s request random)
  | .batchAsync requests random => if acceptsBatch requests then some (queueBatchCompileJob s requests random) else none
  | .sent body => some { s with messages := s.messages ++ [.fresh body] }
  | .cancel env requestId => some { s with store := (handleQueueCancel env requestId s.store).2 }
  | .enqueues p event => do
    let call ← s.producers[p]?
    let next ← call.step s.store event
    some { s with store := next.2, producers := s.producers.set p next.1 }
  | .deliver m randoms => do
    let message ← s.messages[m]?
    if message.phase.deliverable then
      some (s.proceed platform m message.attempt (message.body.jobs s.store.now randoms) ⟨0,0,[]⟩)
    else none
  | .job m j event => do
    let message ← s.messages[m]?
    let work ← message.work
    let job ← work.chunk[j]?
    let next ← job.step platform s.store event
    let running := Phase.processing { work with chunk := work.chunk.set j next.1 }
    some { s with store := next.2, messages := s.messages.set m { message with phase := running } }
  | .settles m => do
    let message ← s.messages[m]?
    let work ← message.work
    if work.chunk.all (·.outcome.isSome) then
      some (s.proceed platform m message work.rest (work.chunk.foldl ChunkStats.collect work.stats))
    else none

inductive Change (platform : Platform) (s : State) : Event → State → Prop where
  | passed : Change platform s (.passes milliseconds) { s with store := { s.store with now := s.store.now+milliseconds } }
  | compileSent :
      Change platform s (.compileAsync request random) (queueCompileJob s request random)
  | batchSent (accepted : acceptsBatch requests = true) :
      Change platform s (.batchAsync requests random) (queueBatchCompileJob s requests random)
  | came : Change platform s (.sent body) { s with messages := s.messages ++ [.fresh body] }
  | cancelled : Change platform s (.cancel env requestId) { s with store := (handleQueueCancel env requestId s.store).2 }
  | enqueued {p : Nat} {call next : Call} {event : CallEvent} {store : Store} (found : s.producers[p]? = some call)
      (went : call.step s.store event = some (next,store)) :
      Change platform s (.enqueues p event) { s with store := store, producers := s.producers.set p next }
  | delivered {m : Nat} {message : Message} {randoms : Nat → Text} (found : s.messages[m]? = some message)
      (ready : message.phase.deliverable = true) :
      Change platform s (.deliver m randoms)
        (s.proceed platform m message.attempt (message.body.jobs s.store.now randoms) ⟨0,0,[]⟩)
  | worked {m j : Nat} {message : Message} {work : Processing} {job next : Job} {event : TaskEvent} {store : Store}
      (found : s.messages[m]? = some message) (busy : message.phase = .processing work)
      (place : work.chunk[j]? = some job) (went : job.step platform s.store event = some (next,store)) :
      Change platform s (.job m j event)
        { s with
          store := store
          messages := s.messages.set m { message with phase := .processing { work with chunk := work.chunk.set j next } } }
  | settled {m : Nat} {message : Message} {work : Processing} (found : s.messages[m]? = some message)
      (busy : message.phase = .processing work) (all : ∀ job ∈ work.chunk, job.outcome.isSome = true) :
      Change platform s (.settles m)
        (s.proceed platform m message work.rest (work.chunk.foldl ChunkStats.collect work.stats))

theorem work_exact {message : Message} : message.work = some work ↔ message.phase = .processing work := by
  unfold Message.work
  cases message.phase with
  | processing other => simp
  | queued | acked | dead => simp

def State.job (s : State) (m j : Nat) : Option Job := do
  let message ← s.messages[m]?
  let work ← message.work
  work.chunk[j]?

theorem job_found {s : State} (found : s.messages[m]? = some message) (busy : message.phase = .processing work)
    (place : work.chunk[j]? = some job) : s.job m j = some job := by
  simp only [State.job,found,Option.bind_eq_bind,Option.bind_some,work_exact.mpr busy,place]

theorem step_cases {platform : Platform} (stepped : step platform s event = some t) : Change platform s event t := by
  cases event with
  | passes milliseconds => cases stepped; exact .passed
  | compileAsync request random => cases stepped; exact .compileSent
  | batchAsync requests random =>
    simp only [step] at stepped
    split at stepped
    · rename_i accepted
      cases stepped
      exact .batchSent accepted
    · cases stepped
  | sent body => cases stepped; exact .came
  | cancel env requestId => cases stepped; exact .cancelled
  | enqueues p event =>
    obtain ⟨call,found,rest⟩ := Option.bind_eq_some_iff.mp stepped
    obtain ⟨⟨next,store⟩,went,rest⟩ := Option.bind_eq_some_iff.mp rest
    cases rest
    exact .enqueued found went
  | deliver m randoms =>
    obtain ⟨message,found,rest⟩ := Option.bind_eq_some_iff.mp stepped
    split at rest
    · rename_i ready
      cases rest
      exact .delivered found ready
    · cases rest
  | job m j event =>
    obtain ⟨message,found,rest⟩ := Option.bind_eq_some_iff.mp stepped
    obtain ⟨work,busy,rest⟩ := Option.bind_eq_some_iff.mp rest
    obtain ⟨job,place,rest⟩ := Option.bind_eq_some_iff.mp rest
    obtain ⟨⟨next,store⟩,went,rest⟩ := Option.bind_eq_some_iff.mp rest
    cases rest
    exact .worked found (work_exact.mp busy) place went
  | settles m =>
    obtain ⟨message,found,rest⟩ := Option.bind_eq_some_iff.mp stepped
    obtain ⟨work,busy,rest⟩ := Option.bind_eq_some_iff.mp rest
    split at rest
    · rename_i all
      cases rest
      exact .settled found (work_exact.mp busy) (List.all_eq_true.mp all)
    · cases rest

-- The compile messages whose jobs an event has begun.
def starts (s : State) : Event → List CompileQueueMessage
  | .deliver m randoms =>
    match s.messages[m]? with
    | some message => (message.body.jobs s.store.now randoms).take chunkSize
    | none => []
  | .settles m =>
    match s.messages[m]?.bind Message.work with
    | some work => work.rest.take chunkSize
    | none => []
  | _ => []

theorem starts_deliver {s : State} (found : s.messages[m]? = some message) :
    starts s (.deliver m randoms) = (message.body.jobs s.store.now randoms).take chunkSize := by
  simp only [starts,found]

theorem starts_settles {s : State} (found : s.messages[m]? = some message) (busy : message.phase = .processing work) :
    starts s (.settles m) = work.rest.take chunkSize := by
  simp only [starts,found,Option.bind_some,work_exact.mpr busy]

theorem proceed_log (platform : Platform) (s : State) (m : Nat) (message : Message) (rest : List CompileQueueMessage)
    (stats : ChunkStats) :
    (s.proceed platform m message rest stats).store.log =
      ((rest.take chunkSize).map fun message => Record.compiling message.requestId).reverse ++ s.store.log := by
  cases rest with
  | nil => rfl
  | cons first rest => rfl

theorem finish_idle (platform : Platform) (message : Message) (stats : ChunkStats) (work : Processing) :
    (message.finish platform stats).phase ≠ .processing work := by
  unfold Message.finish
  split
  · exact Phase.noConfusion
  · split
    · exact Phase.noConfusion
    · exact Phase.noConfusion

theorem proceed_body (platform : Platform) (message : Message) (store : Store) (rest : List CompileQueueMessage) (stats : ChunkStats) :
    (message.proceed platform store rest stats).1.body = message.body := by
  cases rest with
  | nil =>
    unfold Message.proceed Message.finish
    repeat' split
    all_goals rfl
  | cons first rest => rfl

theorem proceed_chunk {platform : Platform} {message : Message} {store : Store}
    (busy : (message.proceed platform store rest stats).1.phase = .processing work) :
    work = ⟨(rest.take chunkSize).map (Job.begin store.now),rest.drop chunkSize,stats⟩ := by
  cases rest with
  | nil => exact absurd busy (finish_idle platform message stats work)
  | cons first rest => exact (Phase.processing.inj busy).symm

inductive CallChange (call : Call) (store : Store) : CallEvent → Call → Store → Prop where
  | got (reading : call.progress = .reading) :
      CallChange call store (.read false) ⟨call.update,.writing store.read store.now⟩ store
  | missed (reading : call.progress = .reading) : CallChange call store (.read true) ⟨call.update,.done⟩ store
  | put {existing : Option QueueStats} {taken : Nat} (writing : call.progress = .writing existing taken) :
      CallChange call store (.written false) ⟨call.update,.done⟩ (store.write existing call.update taken)
  | dropped {existing : Option QueueStats} {taken : Nat} (writing : call.progress = .writing existing taken) :
      CallChange call store (.written true) ⟨call.update,.done⟩ store

theorem call_step_cases {call : Call} (went : call.step store event = some (next,after)) : CallChange call store event next after := by
  cases event with
  | read fails =>
    simp only [Call.step] at went
    split at went
    · rename_i reading
      cases went
      cases fails with
      | false => exact .got reading
      | true => exact .missed reading
    · cases went
  | written fails =>
    simp only [Call.step] at went
    split at went
    · rename_i existing taken writing
      cases went
      cases fails with
      | false => exact .put writing
      | true => exact .dropped writing
    · cases went

inductive JobChange (platform : Platform) (job : Job) (store : Store) : TaskEvent → Job → Store → Prop where
  | kept {since : Nat} {rules : List Text} {cacheKey : Text} (compiling : job.task = .compiling since)
      (keyed : job.message.request.cacheKey platform.sha256 = some cacheKey) :
      JobChange platform job store (.compiled (.ok rules)) { job with task := .caching since rules cacheKey } store
  | unkept {since : Nat} {rules : List Text} (compiling : job.task = .compiling since)
      (unkeyed : job.message.request.cacheKey platform.sha256 = none) :
      JobChange platform job store (.compiled (.ok rules))
        (job.update (completedUpdate job.message rules none (store.now-since)) none) store
  | failed {since : Nat} {error : Thrown} (compiling : job.task = .compiling since) :
      JobChange platform job store (.compiled (.error error))
        (job.update (failedUpdate job.message error (store.now-since)) (some error)) store
  | cached {since : Nat} {rules : List Text} {cacheKey : Text} {fails : Bool} (caching : job.task = .caching since rules cacheKey) :
      JobChange platform job store (.cached fails)
        (job.update (completedUpdate job.message rules (some cacheKey) (store.now-since)) none)
        (if fails then store else store.putResult job.message cacheKey (.compiled rules (platform.isoDate store.now)))
  | called {call next : Call} {error : Option Thrown} {event : CallEvent} {after : Store} (updating : job.task = .updating call error)
      (change : CallChange call store event next after) :
      JobChange platform job store (.updates event) { job with task := .updating next error } after

theorem job_step_cases {job : Job} (went : job.step platform store event = some (next,after)) :
    JobChange platform job store event next after := by
  cases event with
  | compiled outcome =>
    simp only [Job.step] at went
    split at went
    · rename_i compiling
      split at went
      · rename_i keyed
        cases went
        exact .kept compiling keyed
      · rename_i unkeyed
        cases went
        exact .unkept compiling unkeyed
      · cases went
        exact .failed compiling
    · cases went
  | cached fails =>
    simp only [Job.step] at went
    split at went
    · rename_i caching
      cases went
      exact .cached caching
    · cases went
  | updates event =>
    simp only [Job.step] at went
    split at went
    · rename_i call error updating
      obtain ⟨part,moved,same⟩ := Option.map_eq_some_iff.mp went
      cases same
      exact .called updating (call_step_cases moved)
    · cases went

-- The rules for one call and one job: a settled one steps no more, and what it
-- is about stays.
theorem call_change_live (change : CallChange call store event next after) : call.progress ≠ .done := by
  intro done
  cases change with
  | got reading | missed reading =>
    rw [done] at reading
    cases reading
  | put writing | dropped writing =>
    rw [done] at writing
    cases writing

theorem call_change_update (change : CallChange call store event next after) : next.update = call.update := by
  cases change with
  | got | missed | put | dropped => rfl

theorem job_step_message {job : Job} (went : job.step platform store event = some (next,after)) : next.message = job.message := by
  cases job_step_cases went with
  | kept | unkept | failed | cached | called => rfl

theorem outcome_compiling {job : Job} (compiling : job.task = .compiling since) : job.outcome = none := by
  simp only [Job.outcome,compiling]

theorem outcome_caching {job : Job} (caching : job.task = .caching since rules cacheKey) : job.outcome = none := by
  simp only [Job.outcome,caching]

theorem outcome_updating {job : Job} (updating : job.task = .updating call error) (live : call.progress ≠ .done) :
    job.outcome = none := by
  obtain ⟨update,progress⟩ := call
  cases progress with
  | reading | writing => simp only [Job.outcome,updating]
  | done => exact absurd rfl live

theorem job_step_unsettled {job : Job} (went : job.step platform store event = some (next,after)) : job.outcome = none := by
  cases job_step_cases went with
  | kept compiling | unkept compiling | failed compiling => exact outcome_compiling compiling
  | cached caching => exact outcome_caching caching
  | called updating change => exact outcome_updating updating (call_change_live change)

-- What holds of every job of every delivery at work.
def Jobs (P : Job → Prop) (s : State) : Prop :=
  ∀ (m : Nat) (message : Message) (work : Processing), s.messages[m]? = some message → message.phase = .processing work →
    ∀ job ∈ work.chunk, P job

theorem jobs_none {P : Job → Prop} {s : State} (none : ∀ message ∈ s.messages, message.work = none) : Jobs P s := by
  intro m message work found busy
  have idle := none message (List.mem_of_getElem? found)
  rw [work_exact.mpr busy] at idle
  cases idle

theorem jobs_proceed {P : Job → Prop} {platform : Platform} {s : State} (all : Jobs P s)
    (begun : ∀ message ∈ rest.take chunkSize, P (.begin s.store.now message)) :
    Jobs P (s.proceed platform m message rest stats) := by
  intro k other work found busy
  cases found_set found with
  | inl placed =>
    obtain ⟨-,rfl⟩ := placed
    rw [proceed_chunk busy]
    intro job member
    obtain ⟨message,present,rfl⟩ := List.mem_map.mp member
    exact begun message present
  | inr placed => exact all k other work placed.2 busy

theorem jobs_came {P : Job → Prop} {s : State} (all : Jobs P s) (store : Store) (producers : List Call) :
    Jobs P ⟨store,s.messages ++ [.fresh body],producers⟩ := by
  intro m message work found busy
  cases found_append found with
  | inl old => exact all m message work old busy
  | inr new =>
    obtain ⟨-,rfl⟩ := new
    cases busy

theorem jobs_step {P : Job → Prop} (all : Jobs P s) (stepped : step platform s event = some t)
    (begun : ∀ message ∈ starts s event, P (.begin s.store.now message))
    (kept : ∀ job next event store, P job → job.step platform s.store event = some (next,store) → P next) : Jobs P t := by
  cases step_cases stepped with
  | passed => exact all
  | compileSent => exact jobs_came all _ _
  | batchSent accepted => exact jobs_came all _ _
  | came => exact jobs_came all _ _
  | cancelled => exact all
  | enqueued found went => exact all
  | delivered found ready => exact jobs_proceed all (starts_deliver found ▸ begun)
  | settled found busy done => exact jobs_proceed all (starts_settles found busy ▸ begun)
  | worked found busy place went =>
    intro k other busied located processing
    cases found_set located with
    | inr placed => exact all k other busied placed.2 processing
    | inl placed =>
      obtain ⟨-,rfl⟩ := placed
      cases processing
      have before := all _ _ _ found busy
      exact forall_set before (kept _ _ _ _ (before _ (List.mem_of_getElem? place)) went)

-- The statistics a job updates are its own.
def Job.Own (job : Job) : Prop :=
  ∀ call error, job.task = .updating call error →
    (error = none ∧ ∃ rules cacheKey duration, call.update = completedUpdate job.message rules cacheKey duration) ∨
    ∃ thrown duration, error = some thrown ∧ call.update = failedUpdate job.message thrown duration

theorem own_step {job : Job} (own : job.Own) (went : job.step platform store event = some (next,after)) : next.Own := by
  intro call error held
  cases job_step_cases went with
  | kept compiling keyed => cases held
  | unkept compiling unkeyed =>
    cases held
    exact .inl ⟨rfl,_,_,_,rfl⟩
  | failed compiling =>
    cases held
    exact .inr ⟨_,_,rfl,rfl⟩
  | cached caching =>
    cases held
    exact .inl ⟨rfl,_,_,_,rfl⟩
  | called updating change =>
    cases held
    rw [call_change_update change]
    exact own _ _ updating

-- Producers only ever count what they sent.
def Enqueues (s : State) : Prop := ∀ call ∈ s.producers, ∃ count, call.update = enqueuedUpdate count

theorem enqueues_step (all : Enqueues s) (stepped : step platform s event = some t) : Enqueues t := by
  have sent (body : Body) : ∀ call ∈ s.producers ++ [⟨enqueuedUpdate body.size,.reading⟩],
      ∃ count, call.update = enqueuedUpdate count := by
    intro call member
    rcases List.mem_append.mp member with old | new
    · exact all call old
    · obtain rfl := List.mem_singleton.mp new
      exact ⟨_,rfl⟩
  cases step_cases stepped with
  | passed | came | cancelled | delivered | worked | settled => exact all
  | compileSent => exact sent _
  | batchSent accepted => exact sent _
  | enqueued found went =>
    apply forall_set all
    rw [call_change_update (call_step_cases went)]
    exact all _ (List.mem_of_getElem? found)

structure Owned (s : State) : Prop where
  jobs : Jobs Job.Own s
  producers : Enqueues s

theorem owned_start (now : Nat) : Owned (start now) :=
  ⟨fun _ _ _ found => by simp [start] at found,fun _ member => by simp [start] at member⟩

theorem owned_step (owned : Owned s) (stepped : step platform s event = some t) : Owned t := by
  refine ⟨?_,enqueues_step owned.producers stepped⟩
  apply jobs_step owned.jobs stepped
  · intro message started call error updating
    cases updating
  · intro job next event store own went
    exact own_step own went

theorem run_owned (ran : run (step platform) (start now) events = some s) : Owned s :=
  run_keeps Owned (fun _ _ _ owned stepped => owned_step owned stepped) (owned_start now) ran

-- A job of a delivery at work, that has not settled.
def Live (s : State) (job : Job) : Prop :=
  job.outcome = none ∧ ∃ (m : Nat) (message : Message) (work : Processing),
    s.messages[m]? = some message ∧ message.phase = .processing work ∧ job ∈ work.chunk

theorem jobs_live {P : Job → Prop} (all : Jobs P s) (live : Live s job) : P job := by
  obtain ⟨-,m,message,work,found,busy,member⟩ := live
  exact all m message work found busy job member

-- Who writes a record other than the start of a job.
inductive Writes (s : State) (record : Record) : Prop where
  | producer (call : Call) (taken : Nat) (member : call ∈ s.producers) (same : record = .updated call.update taken)
  | put (job : Job) (cacheKey : Text) (live : Live s job) (same : record = .cached job.message.requestId cacheKey)
  | updates (job : Job) (call : Call) (error : Option Thrown) (taken : Nat) (live : Live s job)
      (task : job.task = .updating call error) (same : record = .updated call.update taken)

theorem call_change_log (change : CallChange call store event next after) :
    ∃ newer, after.log = newer ++ store.log ∧ ∀ record ∈ newer, ∃ taken, record = .updated call.update taken := by
  cases change with
  | got | missed | dropped => exact ⟨[],rfl,fun _ member => absurd member List.not_mem_nil⟩
  | @put existing taken writing => exact ⟨[.updated call.update taken],rfl,fun _ member => ⟨taken,List.mem_singleton.mp member⟩⟩

theorem job_step_log {job : Job} (went : job.step platform store event = some (next,after)) :
    ∃ newer, after.log = newer ++ store.log ∧ ∀ record ∈ newer,
      (∃ cacheKey, record = .cached job.message.requestId cacheKey) ∨
      ∃ call error taken, job.task = .updating call error ∧ record = .updated call.update taken := by
  cases job_step_cases went with
  | kept | unkept | failed => exact ⟨[],rfl,fun _ member => absurd member List.not_mem_nil⟩
  | @cached _ _ cacheKey fails caching =>
    cases fails with
    | true => exact ⟨[],rfl,fun _ member => absurd member List.not_mem_nil⟩
    | false => exact ⟨[.cached job.message.requestId cacheKey],rfl,fun _ member => .inl ⟨cacheKey,List.mem_singleton.mp member⟩⟩
  | @called call _ error _ _ updating change =>
    obtain ⟨newer,grown,written⟩ := call_change_log change
    refine ⟨newer,grown,?_⟩
    intro record member
    obtain ⟨taken,same⟩ := written record member
    exact .inr ⟨call,error,taken,updating,same⟩

theorem kvTtl_pos : 0 < kvTtl := by decide

theorem read_write (store : Store) (existing : Option QueueStats) (update : Update) (taken : Nat) :
    (store.write existing update taken).read = some (updateQueueStats existing update taken) := by
  have later : store.now < store.now+kvTtl := Nat.lt_add_of_pos_right kvTtl_pos
  unfold Store.read Store.write
  dsimp only
  rw [if_pos later]

theorem cancel_read (env : CancelEnvironment) (requestId : Text) (store : Store) :
    (handleQueueCancel env requestId store).2.read = store.read := by
  unfold handleQueueCancel
  repeat' split
  all_goals rfl

theorem cancel_log (env : CancelEnvironment) (requestId : Text) (store : Store) :
    (handleQueueCancel env requestId store).2.log = store.log := by
  unfold handleQueueCancel
  repeat' split
  all_goals rfl

-- The history grows by the starts of an event and by what is written for it.
theorem step_log (stepped : step platform s event = some t) :
    ∃ newer, t.store.log = newer ++ s.store.log ∧
      (∀ message ∈ starts s event, Record.compiling message.requestId ∈ newer) ∧
      ∀ record ∈ newer, (∃ message ∈ starts s event, record = .compiling message.requestId) ∨ Writes s record := by
  have silent (same : t.store.log = s.store.log) (none : starts s event = []) :
      ∃ newer, t.store.log = newer ++ s.store.log ∧
        (∀ message ∈ starts s event, Record.compiling message.requestId ∈ newer) ∧
        ∀ record ∈ newer, (∃ message ∈ starts s event, record = .compiling message.requestId) ∨ Writes s record := by
    rw [none]
    exact ⟨[],same,fun _ member => absurd member List.not_mem_nil,fun _ member => absurd member List.not_mem_nil⟩
  have begun (m : Nat) (message : Message) (rest : List CompileQueueMessage) (stats : ChunkStats)
      (begins : starts s event = rest.take chunkSize) :
      ∃ newer, (s.proceed platform m message rest stats).store.log = newer ++ s.store.log ∧
        (∀ message ∈ starts s event, Record.compiling message.requestId ∈ newer) ∧
        ∀ record ∈ newer, (∃ message ∈ starts s event, record = .compiling message.requestId) ∨ Writes s record := by
    refine ⟨_,proceed_log platform s m message rest stats,?_,?_⟩
    · intro one member
      exact List.mem_reverse.mpr (List.mem_map.mpr ⟨one,begins ▸ member,rfl⟩)
    · intro record member
      obtain ⟨one,present,same⟩ := List.mem_map.mp (List.mem_reverse.mp member)
      exact .inl ⟨one,begins ▸ present,same.symm⟩
  cases step_cases stepped with
  | passed => exact silent rfl rfl
  | compileSent => exact silent rfl rfl
  | batchSent accepted => exact silent rfl rfl
  | came => exact silent rfl rfl
  | cancelled => exact silent (cancel_log _ _ _) rfl
  | enqueued found went =>
    obtain ⟨newer,grown,written⟩ := call_change_log (call_step_cases went)
    refine ⟨newer,grown,fun _ member => absurd member List.not_mem_nil,?_⟩
    intro record member
    obtain ⟨taken,same⟩ := written record member
    exact .inr (.producer _ taken (List.mem_of_getElem? found) same)
  | delivered found ready => exact begun _ _ _ _ (starts_deliver found)
  | settled found busy done => exact begun _ _ _ _ (starts_settles found busy)
  | worked found busy place went =>
    obtain ⟨newer,grown,written⟩ := job_step_log went
    have live : Live s _ := ⟨job_step_unsettled went,_,_,_,found,busy,List.mem_of_getElem? place⟩
    refine ⟨newer,grown,fun _ member => absurd member List.not_mem_nil,?_⟩
    intro record present
    rcases written record present with ⟨cacheKey,same⟩ | ⟨call,error,taken,task,same⟩
    · exact .inr (.put _ cacheKey live same)
    · exact .inr (.updates _ call error taken live task same)

-- What an event makes of the message at one place.
inductive MessageChange (platform : Platform) (s : State) (m : Nat) (message : Message) : Event → Message → Prop where
  | same {event : Event} : MessageChange platform s m message event message
  | delivered {randoms : Nat → Text} (found : s.messages[m]? = some message) (ready : message.phase.deliverable = true) :
      MessageChange platform s m message (.deliver m randoms)
        (message.attempt.proceed platform s.store (message.body.jobs s.store.now randoms) ⟨0,0,[]⟩).1
  | worked {j : Nat} {work : Processing} {job next : Job} {event : TaskEvent} {store : Store}
      (busy : message.phase = .processing work) (place : work.chunk[j]? = some job)
      (went : job.step platform s.store event = some (next,store)) :
      MessageChange platform s m message (.job m j event)
        { message with phase := .processing { work with chunk := work.chunk.set j next } }
  | settled {work : Processing} (found : s.messages[m]? = some message) (busy : message.phase = .processing work)
      (all : ∀ job ∈ work.chunk, job.outcome.isSome = true) :
      MessageChange platform s m message (.settles m)
        (message.proceed platform s.store work.rest (work.chunk.foldl ChunkStats.collect work.stats)).1

theorem message_step {m : Nat} {message : Message} (found : s.messages[m]? = some message) (stepped : step platform s event = some t) :
    ∃ after : Message, t.messages[m]? = some after ∧ MessageChange platform s m message event after := by
  have present : m < s.messages.length := (List.getElem?_eq_some_iff.mp found).1
  have kept (same : t.messages[m]? = s.messages[m]?) :
      ∃ after : Message, t.messages[m]? = some after ∧ MessageChange platform s m message event after :=
    ⟨message,same.trans found,.same⟩
  cases step_cases stepped with
  | passed | cancelled | enqueued => exact kept rfl
  | compileSent | batchSent | came => exact kept (List.getElem?_append_left present)
  | @delivered k other randoms located ready =>
    by_cases here : k = m
    · subst here
      obtain rfl : other = message := Option.some.inj (located.symm.trans found)
      exact ⟨_,placed_set located _,.delivered found ready⟩
    · exact kept (List.getElem?_set_ne here)
  | @worked k j other work job next _ _ located busy place went =>
    by_cases here : k = m
    · subst here
      obtain rfl : other = message := Option.some.inj (located.symm.trans found)
      exact ⟨_,placed_set located _,.worked busy place went⟩
    · exact kept (List.getElem?_set_ne here)
  | @settled k other work located busy all =>
    by_cases here : k = m
    · subst here
      obtain rfl : other = message := Option.some.inj (located.symm.trans found)
      exact ⟨_,placed_set located _,.settled found busy all⟩
    · exact kept (List.getElem?_set_ne here)

theorem body_run {m : Nat} {message : Message} (found : s.messages[m]? = some message) (ran : run (step platform) s events = some t) :
    ∃ after : Message, t.messages[m]? = some after ∧ after.body = message.body := by
  apply run_keeps (fun u : State => ∃ after : Message, u.messages[m]? = some after ∧ after.body = message.body) _ ⟨message,found,rfl⟩ ran
  intro u event next held stepped
  obtain ⟨other,located,same⟩ := held
  obtain ⟨after,place,change⟩ := message_step located stepped
  refine ⟨after,place,?_⟩
  rw [← same]
  cases change with
  | same | worked => rfl
  | delivered => exact proceed_body platform _ _ _ _
  | settled => exact proceed_body platform _ _ _ _

-- Parts of runs: a call of updateQueueStats by a producer, a job that is sent
-- and counted, a job that compiles, and the delivery of such a one.
def plainPlatform : Platform := ⟨fun _ => listDigest,fun _ => [],3⟩

def countedAs (p : Nat) : List Event := [.enqueues p (.read false),.enqueues p (.written false)]

def sentAs (p : Nat) (random : Char) : List Event := .compileAsync listRequest [random] :: countedAs p

def jobCompiled (m j : Nat) : List Event :=
  [.job m j (.compiled (.ok ["||ads.example^".toList])),.job m j (.cached false),.job m j (.updates (.read false)),
    .job m j (.updates (.written false))]

def twoItems : List BatchRequestItem := [⟨['a'],listRequest⟩,⟨['b'],listRequest⟩]

def compiledAs (m : Nat) : List Event := .deliver m (fun _ => []) :: jobCompiled m 0 ++ [.settles m]

end AdblockCompiler.Queue
