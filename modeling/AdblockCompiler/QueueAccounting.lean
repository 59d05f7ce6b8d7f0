import AdblockCompiler.Queue

-- The counters of the queue statistics against the jobs of the queue.
namespace AdblockCompiler.Queue
open JsText JsonText Schedules CacheKeys CompileRequest

def Store.counters (store : Store) : Counters :=
  match store.read with
  | none => ⟨0,0,0,0⟩
  | some stats => stats.counters

-- A job has its final outcome once its message was acknowledged or dropped.
def Message.finished (message : Message) : Nat := if message.final then message.body.size else 0
def Message.unfinished (message : Message) : Nat := if message.final then 0 else message.body.size

structure Conserved (s : State) : Prop where
  pending : s.store.counters.pending = total Message.unfinished s.messages
  final : s.store.counters.final = total Message.finished s.messages

def Call.settled (call : Call) : Bool :=
  match call.progress with
  | .done => true
  | _ => false

-- Between two operations.
def quiet (s : State) : Bool := s.producers.all Call.settled && s.messages.all fun message => message.work.isNone

-- One operation after another, on the messages of the two handlers, and no
-- failure of KV.
def orderly (s : State) : Event → Bool
  | .sent _ => false
  | .compileAsync _ _ | .batchAsync _ _ | .deliver _ _ => quiet s
  | .enqueues _ (.read fails) | .enqueues _ (.written fails) => !fails
  | .job _ _ (.updates (.read fails)) | .job _ _ (.updates (.written fails)) | .job _ _ (.cached fails) => !fails
  | .passes _ | .cancel _ _ | .job _ _ (.compiled _) | .settles _ => true

-- What the call had read is still what is stored.
def Call.current (store : Store) (call : Call) : Bool :=
  match call.progress with
  | .writing existing _ => decide (existing = store.read)
  | _ => true

def Job.current (store : Store) (job : Job) : Bool :=
  match job.task with
  | .updating call _ => call.current store
  | _ => true

-- The statistics do not expire, no message is delivered again, no compilation
-- fails that is to be retried, and no update is put over another that came
-- between its get and its put.
def steady (platform : Platform) (s : State) : Event → Bool
  | .passes milliseconds =>
    match s.store.stats with
    | none => true
    | some stored => decide (s.store.now+milliseconds < stored.expires)
  | .deliver m _ => (s.messages[m]?).all fun message => decide (message.attempts = 0)
  | .job m _ (.compiled (.error _)) => (s.messages[m]?).all fun message => decide (platform.maxRetries < message.attempts)
  | .job m j (.updates (.written _)) => (s.job m j).all (Job.current s.store)
  | .enqueues p (.written _) => (s.producers[p]?).all (Call.current s.store)
  | _ => true

variable {platform : Platform} {s t : State}

theorem counters_write {store : Store} (current : existing = store.read) (update : Update) (taken : Nat) :
    (store.write existing update taken).counters = store.counters.add update.type update.counted := by
  have before : store.counters = (existing.getD (createEmptyQueueStats taken)).counters := by
    unfold Store.counters
    rw [← current]
    cases existing with
    | none => rfl
    | some stats => rfl
  have after : (store.write existing update taken).counters = (updateQueueStats existing update taken).counters := by
    rw [Store.counters,read_write]
  rw [after,before,updateQueueStats_counters]

-- What a call has yet to count, and what a delivery has counted.
def Call.owes (call : Call) : Nat := if call.settled then 0 else call.update.counted

def Message.tally (message : Message) : Nat :=
  match message.phase with
  | .processing work => work.stats.successful+work.stats.failed+work.chunk.countP fun job => job.outcome.isSome
  | _ => message.finished

def Job.error (job : Job) : Option Thrown :=
  match job.task with
  | .updating _ error => error
  | _ => none

-- A delivery at work has all of its jobs, and fails only where the queue has no
-- retries left.
structure Message.Shaped (platform : Platform) (message : Message) (work : Processing) : Prop where
  unfinished : message.final = false
  sized : work.stats.successful+work.stats.failed+work.chunk.length+work.rest.length = message.body.size
  started : 0 < message.attempts
  last : (0 < work.stats.failed ∨ ∃ job ∈ work.chunk, job.error ≠ none) → platform.maxRetries < message.attempts

structure Message.Sound (platform : Platform) (message : Message) : Prop where
  fresh : message.attempts = 0 → message.phase = .queued ∧ message.final = false
  working : ∀ work, message.phase = .processing work → message.Shaped platform work

structure Balanced (platform : Platform) (s : State) : Prop where
  owned : Owned s
  pending : s.store.counters.pending+total Call.owes s.producers+s.store.counters.final =
    total (fun message => message.body.size) s.messages
  final : s.store.counters.final = total Message.tally s.messages
  sound : ∀ message ∈ s.messages, message.Sound platform
  apart : total Call.owes s.producers = 0 ∨ ∀ message ∈ s.messages, message.work = none

theorem quiet_exact : quiet s = true ↔ total Call.owes s.producers = 0 ∧ ∀ message ∈ s.messages, message.work = none := by
  have counted (call : Call) : call.owes = 0 ↔ call.settled = true := by
    unfold Call.owes Update.counted
    split
    · simp [*]
    · simp only [*,Bool.false_eq_true,iff_false]
      split <;> omega
  unfold quiet total
  simp [List.sum_eq_zero_iff,counted]

theorem collect_error {job : Job} (failed : job.outcome = some (some error)) : job.error = some error := by
  unfold Job.outcome at failed
  unfold Job.error
  split at failed
  · rename_i task
    simp only [task]
    exact Option.some.inj failed
  · cases failed

theorem collect_sum (chunk : List Job) (stats : ChunkStats) :
    (chunk.foldl ChunkStats.collect stats).successful+(chunk.foldl ChunkStats.collect stats).failed =
      stats.successful+stats.failed+chunk.countP fun job => job.outcome.isSome := by
  induction chunk generalizing stats with
  | nil => rfl
  | cons job chunk ih =>
    rw [List.foldl_cons,ih,List.countP_cons]
    unfold ChunkStats.collect
    split
    · simp [*]; omega
    · simp [*]; omega
    · simp [*]

theorem collect_failed (chunk : List Job) (stats : ChunkStats) (failed : 0 < (chunk.foldl ChunkStats.collect stats).failed) :
    0 < stats.failed ∨ ∃ job ∈ chunk, job.error ≠ none := by
  induction chunk generalizing stats with
  | nil => exact .inl failed
  | cons job chunk ih =>
    rw [List.foldl_cons] at failed
    rcases ih _ failed with before | ⟨other,member,error⟩
    · unfold ChunkStats.collect at before
      split at before
      · rename_i error settled
        refine .inr ⟨job,List.mem_cons_self,?_⟩
        rw [collect_error settled]
        exact Option.some_ne_none error
      · exact .inl before
      · exact .inl before
    · exact .inr ⟨other,List.mem_cons_of_mem job member,error⟩

theorem begun_settled (now : Nat) (messages : List CompileQueueMessage) :
    (messages.map (Job.begin now)).countP (fun job => job.outcome.isSome) = 0 := by
  rw [List.countP_eq_zero]
  intro job member
  obtain ⟨message,-,rfl⟩ := List.mem_map.mp member
  exact Bool.false_ne_true

theorem begun_error (now : Nat) (messages : List CompileQueueMessage) : ∀ job ∈ messages.map (Job.begin now), job.error = none := by
  intro job member
  obtain ⟨message,-,rfl⟩ := List.mem_map.mp member
  rfl

theorem finish_attempts (message : Message) (stats : ChunkStats) : (message.finish platform stats).attempts = message.attempts := by
  unfold Message.finish
  repeat' split
  all_goals rfl

theorem finish_tally {message : Message} (last : 0 < stats.failed → platform.maxRetries < message.attempts) :
    (message.finish platform stats).tally = message.body.size := by
  unfold Message.finish
  split
  · rfl
  · rw [if_pos (last (Nat.pos_of_ne_zero ‹_›))]
    rfl

theorem proceed_sound {message : Message} (store : Store) (unfinished : message.final = false) (started : 0 < message.attempts)
    (sized : stats.successful+stats.failed+rest.length = message.body.size)
    (last : 0 < stats.failed → platform.maxRetries < message.attempts) :
    (message.proceed platform store rest stats).1.tally = stats.successful+stats.failed ∧
      (message.proceed platform store rest stats).1.Sound platform := by
  cases rest with
  | nil =>
    rw [List.length_nil,Nat.add_zero] at sized
    change (message.finish platform stats).tally = _ ∧ (message.finish platform stats).Sound platform
    refine ⟨(finish_tally last).trans sized.symm,?_,fun work busy => absurd busy (finish_idle platform message stats work)⟩
    intro never
    rw [finish_attempts] at never
    exact absurd never (Nat.ne_of_gt started)
  | cons first rest =>
    refine ⟨?_,fun never => absurd never (by simp only [Message.proceed]; omega),?_⟩
    · simp only [Message.proceed,Message.tally,begun_settled,Nat.add_zero]
    · intro work busy
      rw [proceed_chunk busy]
      refine ⟨unfinished,?_,started,?_⟩
      · simp only [List.length_map,List.length_take,List.length_drop,Message.proceed]
        omega
      · intro failing
        rcases failing with failed | ⟨job,member,error⟩
        · exact last failed
        · exact absurd (begun_error store.now _ job member) error

theorem tally_le {message : Message} (sound : message.Sound platform) : message.tally ≤ message.body.size := by
  unfold Message.tally
  split
  · rename_i work busy
    have sized := (sound.working work busy).sized
    have counted : (work.chunk.countP fun job => job.outcome.isSome) ≤ work.chunk.length := List.countP_le_length
    omega
  · unfold Message.finished
    split
    · exact Nat.le_refl _
    · exact Nat.zero_le _

theorem tally_lt {message : Message} (sound : message.Sound platform) (busy : message.phase = .processing work)
    (member : job ∈ work.chunk) (live : job.outcome = none) : message.tally < message.body.size := by
  have sized := (sound.working work busy).sized
  have counted : (work.chunk.countP fun job => job.outcome.isSome) < work.chunk.length := by
    apply Nat.lt_of_le_of_ne List.countP_le_length
    intro whole
    have settled := List.countP_eq_length.mp whole job member
    rw [live] at settled
    cases settled
  simp only [Message.tally,busy]
  omega

-- Replacing a message whose tally grows by what the counters have moved.
theorem balanced_set {m : Nat} {message next : Message} (balanced : Balanced platform s) (found : s.messages[m]? = some message)
    (settled : total Call.owes s.producers = 0) (body : next.body = message.body) (sound : next.Sound platform)
    (tally : next.tally = message.tally+k) (pending : store.counters.pending+k = s.store.counters.pending)
    (final : store.counters.final = s.store.counters.final+k) (owned : Owned ⟨store,s.messages.set m next,s.producers⟩) :
    Balanced platform ⟨store,s.messages.set m next,s.producers⟩ := by
  have sizes := total_set (fun message : Message => message.body.size) found next
  have tallies := total_set Message.tally found next
  have before := balanced.pending
  have counted := balanced.final
  simp only [body] at sizes
  refine ⟨owned,?_,?_,forall_set balanced.sound sound,.inl settled⟩
  · dsimp only
    omega
  · dsimp only
    omega

theorem proceed_counters (message : Message) (store : Store) (rest : List CompileQueueMessage) (stats : ChunkStats) :
    (message.proceed platform store rest stats).2.counters = store.counters := by
  cases rest with
  | nil => rfl
  | cons first rest => rfl

theorem balanced_proceed {m : Nat} {message : Message} (balanced : Balanced platform s) (found : s.messages[m]? = some message)
    (settled : total Call.owes s.producers = 0) (body : next.body = message.body) (unfinished : next.final = false)
    (started : 0 < next.attempts) (sized : stats.successful+stats.failed+rest.length = message.body.size)
    (last : 0 < stats.failed → platform.maxRetries < next.attempts)
    (tally : stats.successful+stats.failed = message.tally) (owned : Owned (s.proceed platform m next rest stats)) :
    Balanced platform (s.proceed platform m next rest stats) := by
  obtain ⟨counted,sound⟩ := proceed_sound s.store unfinished started (body ▸ sized) last
  have same := @proceed_counters platform next s.store rest stats
  have kept : (next.proceed platform s.store rest stats).1.tally = message.tally+0 := counted.trans tally
  apply balanced_set balanced found settled ((proceed_body platform next s.store rest stats).trans body) sound kept
  · rw [same]
    rfl
  · rw [same]
    rfl
  · exact owned

theorem owes_live {call : Call} (live : call.progress ≠ .done) : call.owes = call.update.counted := by
  obtain ⟨update,progress⟩ := call
  cases progress with
  | reading | writing => rfl
  | done => exact absurd rfl live

theorem producer_counts {call : Call} (enqueues : call.update = enqueuedUpdate count) (change : CallChange call store event next after)
    (sure : event = .read false ∨ event = .written false) (current : event = .written false → call.current store = true) :
    after.counters.pending+next.owes = store.counters.pending+call.owes ∧ after.counters.final = store.counters.final := by
  rw [owes_live (call_change_live change)]
  cases change with
  | got reading => exact ⟨rfl,rfl⟩
  | missed reading => simp at sure
  | dropped writing => simp at sure
  | put writing =>
    have same := current rfl
    simp only [Call.current,writing,decide_eq_true_eq] at same
    rw [counters_write same,enqueues]
    exact ⟨rfl,rfl⟩

-- A job at work counts once, when it settles.
def Job.counted (job : Job) : Nat := if job.outcome.isSome then 1 else 0

theorem own_counts {job : Job} (own : job.Own) (updating : job.task = .updating call error) (counters : Counters)
    (owed : 0 < counters.pending) :
    (counters.add call.update.type call.update.counted).pending+1 = counters.pending ∧
      (counters.add call.update.type call.update.counted).final = counters.final+1 := by
  rcases own call error updating with ⟨-,rules,cacheKey,duration,update⟩ | ⟨thrown,duration,-,update⟩
  · rw [update]
    simp only [completedUpdate,Update.counted,one_ne_zero,if_false,Counters.add,Counters.final]
    omega
  · rw [update]
    simp only [failedUpdate,Update.counted,one_ne_zero,if_false,Counters.add,Counters.final]
    omega

theorem job_counts {job : Job} (own : job.Own) (went : job.step platform store event = some (next,after))
    (sure : ∀ fails, event = .updates (.read fails) ∨ event = .updates (.written fails) → fails = false)
    (current : event = .updates (.written false) → job.current store = true) (owed : 0 < store.counters.pending) :
    after.counters.pending+next.counted = store.counters.pending ∧ after.counters.final = store.counters.final+next.counted := by
  cases job_step_cases went with
  | kept | unkept | failed => exact ⟨rfl,rfl⟩
  | @cached _ _ _ fails caching =>
    cases fails with
    | true => exact ⟨rfl,rfl⟩
    | false => exact ⟨rfl,rfl⟩
  | called updating change =>
    cases change with
    | got reading => exact ⟨rfl,rfl⟩
    | missed reading => cases sure true (.inl rfl)
    | dropped writing => cases sure true (.inr rfl)
    | put writing =>
      have same := current rfl
      simp only [Job.current,updating,Call.current,writing,decide_eq_true_eq] at same
      rw [counters_write same]
      exact own_counts own updating store.counters owed

theorem job_error {job : Job} (went : job.step platform store event = some (next,after)) (failing : next.error ≠ none) :
    job.error ≠ none ∨ ∃ error, event = .compiled (.error error) := by
  cases job_step_cases went with
  | kept | unkept | cached => exact absurd rfl failing
  | @failed _ error => exact .inr ⟨error,rfl⟩
  | called updating change =>
    refine .inl ?_
    simp only [Job.error,updating]
    exact failing

theorem read_passes (steadily : steady platform s (.passes milliseconds) = true) :
    ({ s.store with now := s.store.now+milliseconds } : Store).read = s.store.read := by
  unfold Store.read
  cases stored : s.store.stats with
  | none => rfl
  | some entry =>
    simp only [steady,stored,decide_eq_true_eq] at steadily
    have visible : s.store.now < entry.expires := by omega
    dsimp only
    rw [if_pos steadily,if_pos visible]

theorem fresh_sound (body : Body) : (Message.fresh body).Sound platform :=
  ⟨fun _ => ⟨rfl,rfl⟩,fun _ busy => Phase.noConfusion busy⟩

theorem balanced_sent (balanced : Balanced platform s) (ready : quiet s = true) (sized : 0 < body.size) (owned : Owned (s.send body)) :
    Balanced platform (s.send body) := by
  have before := balanced.pending
  have counted := balanced.final
  obtain ⟨settled,idle⟩ := quiet_exact.mp ready
  have owes : Call.owes ⟨enqueuedUpdate body.size,.reading⟩ = body.size := if_neg (Nat.ne_of_gt sized)
  have tally : (Message.fresh body).tally = 0 := rfl
  refine ⟨owned,?_,?_,?_,.inr ?_⟩
  · simp only [State.send,total_append]
    simp only [total,List.map_cons,List.map_nil,List.sum_cons,List.sum_nil,owes,Message.fresh] at before ⊢
    omega
  · simp only [State.send,total_append]
    simp only [total,List.map_cons,List.map_nil,List.sum_cons,List.sum_nil,tally] at counted ⊢
    omega
  · intro message member
    rcases List.mem_append.mp member with old | new
    · exact balanced.sound message old
    · obtain rfl := List.mem_singleton.mp new
      exact fresh_sound body
  · intro message member
    rcases List.mem_append.mp member with old | new
    · exact idle message old
    · obtain rfl := List.mem_singleton.mp new
      rfl

theorem accepts_size (accepted : acceptsBatch requests = true) (requestId : Text) : 0 < (Body.batchCompile requestId requests).size := by
  cases requests with
  | nil => cases accepted
  | cons first rest => exact Nat.succ_pos _

-- Where a delivery is at work, no producer is, and the counters have a job left
-- to count.
theorem working_alone {m : Nat} {message : Message} (balanced : Balanced platform s) (found : s.messages[m]? = some message)
    (busy : message.phase = .processing work) : total Call.owes s.producers = 0 := by
  rcases balanced.apart with settled | idle
  · exact settled
  · have none := idle message (List.mem_of_getElem? found)
    rw [work_exact.mpr busy] at none
    cases none

theorem pending_pos {m : Nat} {message : Message} (balanced : Balanced platform s) (found : s.messages[m]? = some message)
    (busy : message.phase = .processing work) (member : job ∈ work.chunk) (live : job.outcome = none) :
    0 < s.store.counters.pending := by
  have present := List.mem_of_getElem? found
  have settled := working_alone balanced found busy
  have fewer : total Message.tally s.messages < total (fun message => message.body.size) s.messages :=
    List.sum_lt_sum _ _ (fun other among => tally_le (balanced.sound other among))
      ⟨message,present,tally_lt (balanced.sound message present) busy member live⟩
  have before := balanced.pending
  have counted := balanced.final
  omega

theorem tally_set {work : Processing} (place : work.chunk[j]? = some job) (live : job.outcome = none) (next : Job) :
    ((work.chunk.set j next).countP fun job => job.outcome.isSome) =
      (work.chunk.countP fun job => job.outcome.isSome)+next.counted := by
  obtain ⟨bound,same⟩ := List.getElem?_eq_some_iff.mp place
  rw [List.countP_set bound,same,live]
  rfl

theorem counted_pos (update : Update) : 0 < update.counted := by
  unfold Update.counted
  split
  · exact Nat.one_pos
  · exact Nat.pos_of_ne_zero ‹_›

theorem owes_none {producers : List Call} (settled : total Call.owes producers = 0) (member : call ∈ producers) : call.owes = 0 :=
  List.sum_eq_zero_iff.mp settled _ (List.mem_map_of_mem member)

-- A step of one job keeps the shape: it may fail only in the last delivery.
theorem working_sound {message : Message} {work : Processing} {j : Nat} {job next : Job} {event : TaskEvent}
    (shaped : message.Shaped platform work) (place : work.chunk[j]? = some job)
    (fails : next.error ≠ none → job.error ≠ none ∨ ∃ error, event = .compiled (.error error))
    (last : ∀ error, event = .compiled (.error error) → platform.maxRetries < message.attempts) :
    ({ message with phase := .processing { work with chunk := work.chunk.set j next } } : Message).Sound platform := by
  refine ⟨fun never => absurd never (Nat.ne_of_gt shaped.started),?_⟩
  intro other busy
  cases busy
  refine ⟨shaped.unfinished,?_,shaped.started,?_⟩
  · rw [List.length_set]
    exact shaped.sized
  · intro failing
    rcases failing with failed | ⟨one,member,error⟩
    · exact shaped.last (.inl failed)
    · rcases List.mem_or_eq_of_mem_set member with old | new
      · exact shaped.last (.inr ⟨one,old,error⟩)
      · subst new
        rcases fails error with before | ⟨thrown,same⟩
        · exact shaped.last (.inr ⟨job,List.mem_of_getElem? place,before⟩)
        · exact last thrown same

-- The store is written, but not the counters.
theorem balanced_store (balanced : Balanced platform s) (same : store.read = s.store.read) (owned : Owned { s with store := store }) :
    Balanced platform { s with store := store } := by
  have counters : store.counters = s.store.counters := by rw [Store.counters,same,Store.counters]
  refine ⟨owned,?_,?_,balanced.sound,balanced.apart⟩
  · dsimp only
    rw [counters]
    exact balanced.pending
  · dsimp only
    rw [counters]
    exact balanced.final

theorem balanced_enqueued {p : Nat} {call next : Call} (balanced : Balanced platform s)
    (ordered : orderly s (.enqueues p event) = true) (steadily : steady platform s (.enqueues p event) = true)
    (found : s.producers[p]? = some call) (went : call.step s.store event = some (next,store))
    (owned : Owned { s with store := store, producers := s.producers.set p next }) :
    Balanced platform { s with store := store, producers := s.producers.set p next } := by
  obtain ⟨count,enqueues⟩ := balanced.owned.producers call (List.mem_of_getElem? found)
  have sure : event = .read false ∨ event = .written false := by
    cases event with
    | read fails => simpa [orderly] using ordered
    | written fails => simpa [orderly] using ordered
  have current : event = .written false → call.current s.store = true := by
    intro written
    subst written
    simpa [steady,found] using steadily
  obtain ⟨pending,final⟩ := producer_counts enqueues (call_step_cases went) sure current
  have owing := total_set Call.owes found next
  have before := balanced.pending
  have counted := balanced.final
  refine ⟨owned,?_,?_,balanced.sound,?_⟩
  · dsimp only
    omega
  · dsimp only
    omega
  · rcases balanced.apart with settled | idle
    · have live := owes_live (call_change_live (call_step_cases went))
      have owed := counted_pos call.update
      have nothing := owes_none settled (List.mem_of_getElem? found)
      omega
    · exact .inr idle

theorem balanced_worked {m j : Nat} {message : Message} {work : Processing} {job next : Job} (balanced : Balanced platform s)
    (ordered : orderly s (.job m j event) = true) (steadily : steady platform s (.job m j event) = true)
    (found : s.messages[m]? = some message) (busy : message.phase = .processing work) (place : work.chunk[j]? = some job)
    (went : job.step platform s.store event = some (next,store))
    (owned : Owned ⟨store,s.messages.set m { message with phase := .processing { work with chunk := work.chunk.set j next } },s.producers⟩) :
    Balanced platform ⟨store,s.messages.set m { message with phase := .processing { work with chunk := work.chunk.set j next } },s.producers⟩ := by
  have member := List.mem_of_getElem? place
  have live := job_step_unsettled went
  have shaped := (balanced.sound message (List.mem_of_getElem? found)).working work busy
  have own := balanced.owned.jobs m message work found busy job member
  have sure : ∀ fails, event = .updates (.read fails) ∨ event = .updates (.written fails) → fails = false := by
    intro fails either
    rcases either with same | same
    · subst same
      simpa [orderly] using ordered
    · subst same
      simpa [orderly] using ordered
  have placed := job_found found busy place
  have current : event = .updates (.written false) → job.current s.store = true := by
    intro written
    subst written
    simpa [steady,placed] using steadily
  obtain ⟨pending,final⟩ := job_counts own went sure current (pending_pos balanced found busy member live)
  refine balanced_set balanced found (working_alone balanced found busy) rfl ?_ ?_ pending final owned
  · exact working_sound shaped place (fun failing => job_error went failing) (fun error same => by
      subst same
      simpa [steady,found] using steadily)
  · simp only [Message.tally,busy,tally_set place live next]
    omega

theorem balanced_step (balanced : Balanced platform s) (ordered : orderly s event = true)
    (steadily : steady platform s event = true) (stepped : step platform s event = some t) : Balanced platform t := by
  have owned := owned_step balanced.owned stepped
  cases step_cases stepped with
  | passed => exact balanced_store balanced (read_passes steadily) owned
  | compileSent => exact balanced_sent balanced ordered Nat.one_pos owned
  | batchSent accepted => exact balanced_sent balanced ordered (accepts_size accepted _) owned
  | came => cases ordered
  | cancelled => exact balanced_store balanced (cancel_read _ _ _) owned
  | enqueued found went => exact balanced_enqueued balanced ordered steadily found went owned
  | @delivered m message randoms found ready =>
    obtain ⟨settled,idle⟩ := quiet_exact.mp ordered
    have never : message.attempts = 0 := by simpa [steady,found] using steadily
    obtain ⟨queued,unfinished⟩ := (balanced.sound message (List.mem_of_getElem? found)).fresh never
    refine balanced_proceed balanced found settled rfl unfinished (Nat.succ_pos _) ?_ (fun failed => absurd failed (Nat.lt_irrefl 0)) ?_ owned
    · simp only [jobs_length,Nat.zero_add]
    · simp [Message.tally,queued,Message.finished,unfinished]
  | @settled m message work found busy all =>
    have shaped := (balanced.sound message (List.mem_of_getElem? found)).working work busy
    have sum := collect_sum work.chunk work.stats
    have whole : (work.chunk.countP fun job => job.outcome.isSome) = work.chunk.length := List.countP_eq_length.mpr all
    have sized := shaped.sized
    refine balanced_proceed balanced found (working_alone balanced found busy) rfl shaped.unfinished shaped.started ?_ ?_ ?_ owned
    · omega
    · intro failed
      exact shaped.last (collect_failed work.chunk work.stats failed)
    · simp only [Message.tally,busy]
      exact sum
  | worked found busy place went => exact balanced_worked balanced ordered steadily found busy place went owned

theorem balanced_start (now : Nat) : Balanced platform (start now) :=
  ⟨owned_start now,rfl,rfl,fun _ member => absurd member List.not_mem_nil,.inl rfl⟩

theorem run_balanced (ran : run (guarded (fun s event => orderly s event && steady platform s event) (step platform)) (start now)
    events = some t) : Balanced platform t := by
  apply run_keeps (Balanced platform) _ (balanced_start now) ran
  intro s event next balanced taken
  obtain ⟨admitted,stepped⟩ := guarded_step.mp taken
  obtain ⟨ordered,steadily⟩ := Bool.and_eq_true_iff.mp admitted
  exact balanced_step balanced ordered steadily stepped

theorem finished_unfinished (messages : List Message) :
    total Message.unfinished messages+total Message.finished messages = total (fun message => message.body.size) messages := by
  induction messages with
  | nil => rfl
  | cons message messages ih =>
    have one : message.unfinished+message.finished = message.body.size := by
      unfold Message.unfinished Message.finished
      split
      · exact Nat.zero_add _
      · exact Nat.add_zero _
    simp only [total,List.map_cons,List.sum_cons] at ih ⊢
    omega

theorem tally_idle (idle : ∀ message ∈ messages, Message.work message = none) : total Message.tally messages = total Message.finished messages := by
  have same : messages.map Message.tally = messages.map Message.finished := by
    apply List.map_congr_left
    intro message member
    unfold Message.tally
    split
    · rename_i busy
      have none := idle message member
      rw [work_exact.mpr busy] at none
      cases none
    · rfl
  exact congrArg List.sum same

-- Between operations the counters are those of the jobs, in every orderly run
-- that goes steadily.
theorem stats_conserved (ran : run (guarded (fun s event => orderly s event && steady platform s event) (step platform)) (start now)
    events = some t) (ready : quiet t = true) : Conserved t := by
  have balanced := run_balanced ran
  obtain ⟨settled,idle⟩ := quiet_exact.mp ready
  have final := balanced.final.trans (tally_idle idle)
  have before := balanced.pending
  have parts := finished_unfinished t.messages
  exact ⟨by omega,final⟩

-- A batch of two, the second item updated after the first.
def batchCompiled : List Event :=
  .batchAsync twoItems ['x'] :: countedAs 0 ++ .deliver 0 (fun _ => []) :: jobCompiled 0 0 ++ jobCompiled 0 1 ++ [.settles 0]

theorem batchCompiled_conserved : ∃ t, run (step plainPlatform) (start 0) batchCompiled = some t ∧ quiet t = true ∧ Conserved t := by
  obtain ⟨t,ends⟩ : ∃ t, run (guarded (fun s event => orderly s event && steady plainPlatform s event) (step plainPlatform)) (start 0)
      batchCompiled = some t := ⟨_,rfl⟩
  have ready : quiet t = true := by
    cases ends
    decide
  exact ⟨t,guarded_run ends,ready,stats_conserved ends ready⟩

-- A compilation that fails is counted as failed and no more as pending, though
-- its message goes back to the queue.
def retried : List Event :=
  sentAs 0 'x' ++ [.deliver 0 (fun _ => []),.job 0 0 (.compiled (.error ['e'])),.job 0 0 (.updates (.read false)),
    .job 0 0 (.updates (.written false)),.settles 0]

theorem retried_unconserved : ¬∀ (platform : Platform) (now : Nat) (events : List Event) (t : State),
    run (guarded orderly (step platform)) (start now) events = some t → quiet t = true → Conserved t := by
  intro always
  obtain ⟨t,ends⟩ : ∃ t, run (guarded orderly (step plainPlatform)) (start 0) retried = some t := ⟨_,rfl⟩
  have ready : quiet t = true := by
    cases ends
    decide
  have pending := (always plainPlatform 0 retried t ends ready).pending
  cases ends
  revert pending
  decide

end AdblockCompiler.Queue
