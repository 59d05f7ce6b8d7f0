import AdblockCompiler.Queue

-- What a cancel signal does to the jobs of the queue.
namespace AdblockCompiler.Queue
open JsText JsonText Schedules CacheKeys CompileRequest

-- A job handed to the compiler, a result put, or a completed entry, for the id.
def Record.concerns (requestId : Text) : Record → Bool
  | .compiling other | .cached other _ => decide (other = requestId)
  | .updated update taken =>
    (update.entry taken).any fun entry => decide (entry.status = .completed ∧ entry.requestId = requestId)

def Untouched (requestId : Text) (s t : State) : Prop :=
  ∃ newer, t.store.log = newer ++ s.store.log ∧ ∀ record ∈ newer, record.concerns requestId = false

-- The message holds a job of the id that its delivery, if there is one, has not
-- come to.
def Message.Awaits (requestId : Text) (message : Message) : Prop :=
  match message.phase with
  | .queued | .acked => requestId ∈ message.body.jobIds
  | .processing work => requestId ∈ work.rest.map CompileQueueMessage.requestId
  | .dead => False

-- What is promised of a cancelled id: its messages are acknowledged at the end
-- of their next delivery, and nothing is done for it.
structure Effective (requestId : Text) (s t : State) : Prop where
  untouched : Untouched requestId s t
  acknowledged : ∀ (m : Nat) (message after : Message), s.messages[m]? = some message → message.Awaits requestId →
    t.messages[m]? = some after → message.processed < after.processed → after.phase = .acked

-- The consumer has not started on the id.
def Idle (requestId : Text) (s : State) : Prop := Jobs (fun job => job.outcome = none → job.message.requestId ≠ requestId) s

-- No job of the id is started.
def spares (requestId : Text) (s : State) (event : Event) : Bool :=
  (starts s event).all fun message => decide (message.requestId ≠ requestId)

variable {requestId : Text} {platform : Platform} {s t : State}

theorem spares_exact : spares requestId s event = true ↔ ∀ message ∈ starts s event, message.requestId ≠ requestId := by
  simp [spares]

theorem idle_step (idle : Idle requestId s) (spared : spares requestId s event = true) (stepped : step platform s event = some t) :
    Idle requestId t := by
  apply jobs_step idle stepped
  · intro message started live
    exact spares_exact.mp spared message started
  · intro job next event store apart went live
    rw [job_step_message went]
    exact apart (job_step_unsettled went)

theorem completed_entry (message : CompileQueueMessage) (rules : List Text) (cacheKey : Option Text) (duration taken : Nat)
    (apart : message.requestId ≠ requestId) :
    (Record.updated (completedUpdate message rules cacheKey duration) taken).concerns requestId = false := by
  unfold Record.concerns Update.entry completedUpdate
  cases named : message.requestId with
  | nil => rfl
  | cons c rest =>
    rw [named] at apart
    simpa using apart

theorem failed_entry (message : CompileQueueMessage) (error : Thrown) (duration taken : Nat) :
    (Record.updated (failedUpdate message error duration) taken).concerns requestId = false := by
  unfold Record.concerns Update.entry failedUpdate
  cases message.requestId with
  | nil => rfl
  | cons c rest => simp

theorem enqueued_entry (count taken : Nat) : (Record.updated (enqueuedUpdate count) taken).concerns requestId = false := rfl

theorem writes_apart (owned : Owned s) (idle : Idle requestId s) (writes : Writes s record) : record.concerns requestId = false := by
  cases writes with
  | producer call taken member same =>
    obtain ⟨count,update⟩ := owned.producers call member
    rw [same,update]
    exact enqueued_entry count taken
  | put job cacheKey live same =>
    rw [same]
    exact decide_eq_false (jobs_live idle live live.1)
  | updates job call error taken live task same =>
    rw [same]
    rcases jobs_live owned.jobs live call error task with ⟨-,rules,cacheKey,duration,update⟩ | ⟨thrown,duration,-,update⟩
    · rw [update]
      exact completed_entry _ _ _ _ _ (jobs_live idle live live.1)
    · rw [update]
      exact failed_entry _ _ _ _

theorem untouched_refl (s : State) : Untouched requestId s s := ⟨[],rfl,fun _ member => absurd member List.not_mem_nil⟩

theorem untouched_trans (first : Untouched requestId s u) (rest : Untouched requestId u t) : Untouched requestId s t := by
  obtain ⟨old,grown,apart⟩ := first
  obtain ⟨newer,after,free⟩ := rest
  refine ⟨newer ++ old,by rw [after,grown,List.append_assoc],?_⟩
  intro record member
  rcases List.mem_append.mp member with late | early
  · exact free record late
  · exact apart record early

-- One step does something for the id exactly when it starts a job of it.
theorem untouched_step (owned : Owned s) (idle : Idle requestId s) (stepped : step platform s event = some t) :
    Untouched requestId s t ↔ spares requestId s event = true := by
  obtain ⟨newer,grown,started,only⟩ := step_log stepped
  rw [spares_exact]
  constructor
  · intro untouched message begins same
    obtain ⟨others,equal,apart⟩ := untouched
    obtain rfl : others = newer := List.append_cancel_right (equal.symm.trans grown)
    have concerned := apart _ (started message begins)
    rw [Record.concerns,decide_eq_false_iff_not] at concerned
    exact concerned same
  · intro apart
    refine ⟨newer,grown,?_⟩
    intro record member
    rcases only record member with ⟨message,begins,same⟩ | writes
    · rw [same]
      exact decide_eq_false (apart message begins)
    · exact writes_apart owned idle writes

theorem log_grows (ran : run (step platform) s events = some t) : ∃ newer, t.store.log = newer ++ s.store.log := by
  induction events generalizing s with
  | nil => cases ran; exact ⟨[],rfl⟩
  | cons event rest ih =>
    obtain ⟨next,stepped,after⟩ := run_cons.mp ran
    obtain ⟨one,grown,-,-⟩ := step_log stepped
    obtain ⟨more,later⟩ := ih after
    exact ⟨more ++ one,by rw [later,grown,List.append_assoc]⟩

-- What stays untouched over a run was so at its first step and over the rest.
theorem untouched_parts (stepped : step platform s event = some u) (ran : run (step platform) u events = some t)
    (untouched : Untouched requestId s t) : Untouched requestId s u ∧ Untouched requestId u t := by
  obtain ⟨one,grown,-,-⟩ := step_log stepped
  obtain ⟨more,later⟩ := log_grows ran
  obtain ⟨newer,whole,apart⟩ := untouched
  have joined : newer ++ s.store.log = (more ++ one) ++ s.store.log := by
    rw [← whole,later,grown,List.append_assoc]
  obtain rfl := List.append_cancel_right joined
  refine ⟨⟨one,grown,?_⟩,⟨more,later,?_⟩⟩
  · intro record member
    exact apart record (List.mem_append_right more member)
  · intro record member
    exact apart record (List.mem_append_left one member)

theorem untouched_exact (owned : Owned s) (idle : Idle requestId s) (ran : run (step platform) s events = some t) :
    Untouched requestId s t ↔ run (guarded (spares requestId) (step platform)) s events = some t := by
  induction events generalizing s with
  | nil =>
    cases ran
    simp [run,untouched_refl]
  | cons event rest ih =>
    obtain ⟨next,stepped,after⟩ := run_cons.mp ran
    rw [run_cons]
    constructor
    · intro untouched
      obtain ⟨first,later⟩ := untouched_parts stepped after untouched
      have spared := (untouched_step owned idle stepped).mp first
      exact ⟨next,guarded_step.mpr ⟨spared,stepped⟩,
        (ih (owned_step owned stepped) (idle_step idle spared stepped) after).mp later⟩
    · intro guardedly
      obtain ⟨other,taken,later⟩ := guardedly
      obtain ⟨spared,same⟩ := guarded_step.mp taken
      obtain rfl : other = next := Option.some.inj (same.symm.trans stepped)
      exact untouched_trans ((untouched_step owned idle stepped).mpr spared)
        ((ih (owned_step owned stepped) (idle_step idle spared stepped) after).mpr later)

theorem awaits_proceed {message : Message} {store : Store} (member : requestId ∈ rest.map CompileQueueMessage.requestId)
    (apart : ∀ message ∈ rest.take chunkSize, message.requestId ≠ requestId) :
    (message.proceed platform store rest stats).1.Awaits requestId ∧
      (message.proceed platform store rest stats).1.processed = message.processed := by
  cases rest with
  | nil => cases member
  | cons first rest =>
    refine ⟨?_,rfl⟩
    obtain ⟨one,present,named⟩ := List.mem_map.mp member
    rw [← List.take_append_drop chunkSize (first :: rest)] at present
    rcases List.mem_append.mp present with taken | left
    · exact absurd named (apart one taken)
    · exact List.mem_map.mpr ⟨one,left,named⟩

-- A message goes on waiting for the job of the id as long as none is started.
theorem awaits_step {m : Nat} {message : Message} (found : s.messages[m]? = some message) (awaits : message.Awaits requestId)
    (spared : spares requestId s event = true) (stepped : step platform s event = some t) :
    ∃ after : Message, t.messages[m]? = some after ∧ after.Awaits requestId ∧ after.processed = message.processed := by
  have apart := spares_exact.mp spared
  obtain ⟨after,place,change⟩ := message_step found stepped
  refine ⟨after,place,?_⟩
  cases change with
  | same => exact ⟨awaits,rfl⟩
  | delivered found ready =>
    rw [starts_deliver found] at apart
    have named : requestId ∈ message.body.jobIds := by
      unfold Message.Awaits at awaits
      cases phase : message.phase with
      | queued | acked => rwa [phase] at awaits
      | processing work => simp only [phase,Phase.deliverable,Bool.false_eq_true] at ready
      | dead => simp only [phase,Phase.deliverable,Bool.false_eq_true] at ready
    exact awaits_proceed (jobIds_jobs named _ _) apart
  | worked busy place went =>
    unfold Message.Awaits at awaits
    rw [busy] at awaits
    exact ⟨awaits,rfl⟩
  | settled found busy all =>
    rw [starts_settles found busy] at apart
    unfold Message.Awaits at awaits
    rw [busy] at awaits
    exact awaits_proceed awaits apart

theorem awaits_run {m : Nat} {message : Message} (found : s.messages[m]? = some message) (awaits : message.Awaits requestId)
    (ran : run (guarded (spares requestId) (step platform)) s events = some t) :
    ∃ after : Message, t.messages[m]? = some after ∧ after.Awaits requestId ∧ after.processed = message.processed := by
  apply run_keeps (fun u : State => ∃ after : Message, u.messages[m]? = some after ∧ after.Awaits requestId ∧
    after.processed = message.processed) _ ⟨message,found,awaits,rfl⟩ ran
  intro u event next held taken
  obtain ⟨after,located,still,same⟩ := held
  obtain ⟨spared,stepped⟩ := guarded_step.mp taken
  obtain ⟨later,place,waiting,equal⟩ := awaits_step located still spared stepped
  exact ⟨later,place,waiting,equal.trans same⟩

-- The consumer never reads the signal, so a cancellation has the promised effect
-- in exactly the runs that start no job of the id after it.
theorem cancel_exact (reached : run (step platform) (start now) before = some s) (idle : Idle requestId s)
    (ran : run (step platform) s (.cancel env requestId :: events) = some t) :
    Effective requestId s t ↔ run (guarded (spares requestId) (step platform)) s (.cancel env requestId :: events) = some t := by
  have same := untouched_exact (run_owned reached) idle ran
  constructor
  · intro effective
    exact same.mp effective.untouched
  · intro guardedly
    refine ⟨same.mpr guardedly,?_⟩
    intro m message after found awaits place more
    obtain ⟨other,located,-,equal⟩ := awaits_run found awaits guardedly
    obtain rfl : after = other := Option.some.inj (place.symm.trans located)
    omega

def signedIn : CancelEnvironment := ⟨false,none,none⟩

def firstId : Text := "compile-0-x".toList

def twoSent : Option State := run (step plainPlatform) (start 0) (sentAs 0 'x' ++ sentAs 1 'y')

theorem twoSent_idle (sent : twoSent = some s) : Idle requestId s := by
  cases sent
  apply jobs_none
  decide

theorem other_compiled : ∃ s t, twoSent = some s ∧
    run (step plainPlatform) s (.cancel signedIn firstId :: compiledAs 1) = some t ∧ Effective firstId s t := by
  obtain ⟨s,sent⟩ : ∃ s, twoSent = some s := ⟨_,rfl⟩
  obtain ⟨t,ends⟩ : ∃ t, (twoSent.bind fun s => run (guarded (spares firstId) (step plainPlatform)) s
      (.cancel signedIn firstId :: compiledAs 1)) = some t := ⟨_,rfl⟩
  rw [sent,Option.bind_some] at ends
  have ran := guarded_run ends
  exact ⟨s,t,sent,ran,(cancel_exact sent (twoSent_idle sent) ran).mpr ends⟩

theorem untouched_since (untouched : Untouched requestId s t) :
    (t.store.log.take (t.store.log.length-s.store.log.length)).all (fun record => !record.concerns requestId) = true := by
  obtain ⟨newer,grown,apart⟩ := untouched
  rw [grown,List.length_append,Nat.add_sub_cancel,List.take_left]
  simpa using apart

-- A job whose cancellation was accepted while it was queued is compiled, its
-- result is put and its completion is recorded.
theorem cancelled_compiled : ¬∀ (platform : Platform) (now : Nat) (before events : List Event) (env : CancelEnvironment)
    (requestId : Text) (s t : State), run (step platform) (start now) before = some s → Idle requestId s →
    (handleQueueCancel env requestId s.store).1 = .ok (.success requestId) →
    run (step platform) s (.cancel env requestId :: events) = some t → Effective requestId s t := by
  intro always
  obtain ⟨s,sent⟩ : ∃ s, twoSent = some s := ⟨_,rfl⟩
  obtain ⟨t,ends⟩ : ∃ t, (twoSent.bind fun s => run (step plainPlatform) s (.cancel signedIn firstId :: compiledAs 0)) = some t :=
    ⟨_,rfl⟩
  have ran := ends
  rw [sent,Option.bind_some] at ran
  have accepted : (handleQueueCancel signedIn firstId s.store).1 = .ok (.success firstId) := rfl
  have effective := always plainPlatform 0 _ _ signedIn firstId s t sent (twoSent_idle sent) accepted ran
  have since := untouched_since effective.untouched
  cases sent
  cases ends
  revert since
  decide

end AdblockCompiler.Queue
