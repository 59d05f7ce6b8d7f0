import AdblockCompiler.ChunkedProcessing
import AdblockCompiler.Deliveries
import AdblockCompiler.ErrorQueue

-- CloudflareQueueProvider: messages sent to one queue by any number of callers,
-- and batches of them processed by any number of consumers, side by side.
namespace AdblockCompiler.QueueProvider
open JsText JsonText Schedules Deliveries
open Chunks (Reason)
open ErrorQueue (given)
open Hosts (decimal)

structure QueueProviderOptions where
  maxBatchSize : Option Nat := none
  maxRetries : Option Nat := none

structure Options where
  maxBatchSize : Nat
  maxRetries : Nat

def QueueProviderOptions.resolve (options : QueueProviderOptions) : Options where
  maxBatchSize := options.maxBatchSize.getD 100
  maxRetries := options.maxRetries.getD 3

inductive QueueMessageType where
  | compile | batch_compile | cache_warm | health_check
  deriving DecidableEq, Repr

def QueueMessageType.text : QueueMessageType → Text
  | .compile => "compile".toList
  | .batch_compile => "batch-compile".toList
  | .cache_warm => "cache-warm".toList
  | .health_check => "health-check".toList

-- requestId is no field of a message, but what is logged asks for one.
structure AnyQueueMessage where
  id : Text
  type : QueueMessageType
  requestId : Option Json := none

structure SendResult where
  success : Bool
  messageId : Text
  error : Option Text

def SendResult.sent (message : AnyQueueMessage) : SendResult := ⟨true,message.id,none⟩
def SendResult.failed (error : Text) (message : AnyQueueMessage) : SendResult := ⟨false,message.id,some error⟩

-- The text of what queue.send and queue.sendBatch throw.
def sendError : Reason → Text
  | .error message => message
  | .other _ => "Unknown error".toList

def notInitialized : Text := "Queue binding not initialized".toList

-- The loop of sendBatch that cuts the messages up. It makes a turn for each
-- message at most.
def batchesFrom (maxBatchSize : Nat) (messages : List α) : Nat → Nat → List (List α)
  | 0,_ => []
  | turns+1,i =>
    if i < messages.length then (messages.drop i).take maxBatchSize :: batchesFrom maxBatchSize messages turns (i+maxBatchSize) else []

def batches (maxBatchSize : Nat) (messages : List α) : List (List α) := batchesFrom maxBatchSize messages messages.length 0

example : batches 2 [1,2,3,4,5] = [[1,2],[3,4],[5]] := by decide

-- One call of send or sendBatch: what it is yet to send, and its results so far.
structure Sender where
  messages : List AnyQueueMessage
  left : List (List AnyQueueMessage)
  results : List SendResult

-- A message in the queue with the id it has there. sender is history.
structure Message where
  id : Text
  body : AnyQueueMessage
  sender : Nat

-- How a handler ends: none where it does not throw.
abbrev Outcome := Option Reason

inductive Disposition where
  | ack | retry
  deriving DecidableEq, Repr

-- What processBatch counts and logs.
structure Tally where
  processed : Nat
  failed : Nat
  logged : List Text

def payloadSummary (body : AnyQueueMessage) : Text :=
  stringify (.object (("id".toList,.string body.id) :: ("type".toList,.string body.type.text) :: given "requestId" body.requestId []))

def droppedLine (message : Message) (attempts : Nat) (error : Reason) : Text :=
  "[DLQ] Message ".toList ++ message.id ++ " permanently failed after ".toList ++ decimal attempts ++
    " attempts and will be dropped. Payload summary: ".toList ++ payloadSummary message.body ++
    ". Error: ".toList ++ error.errorMessage

-- A turn of the loop of processBatch.
def processMessage (options : Options) (tally : Tally) (message : Message) (attempts : Nat) : Outcome → Tally × Disposition
  | none => ({ tally with processed := tally.processed+1 },.ack)
  | some error =>
    if attempts < options.maxRetries then ({ tally with failed := tally.failed+1 },.retry)
    else ({ tally with failed := tally.failed+1, logged := tally.logged ++ [droppedLine message attempts error] },.ack)

def settles (options : Options) (attempts : Nat) (outcome : Outcome) : Bool := outcome.isNone || options.maxRetries ≤ attempts

def system (options : Options) : System Message Outcome Tally where
  start := ⟨0,0,[]⟩
  turn tally message attempts outcome :=
    let (tally,disposition) := processMessage options tally message attempts outcome
    (tally,disposition = .ack)
  settles := settles options
  steady := by
    intro tally message attempts outcome
    cases outcome with
    | none => rfl
    | some error =>
      by_cases again : attempts < options.maxRetries
      · simp [processMessage,settles,again,Nat.not_le.mpr again]
      · simp [processMessage,settles,again,Nat.le_of_not_lt again]

structure State where
  bound : Bool
  senders : List Sender
  queue : Deliveries.State Message Outcome Tally

def created : State := ⟨false,[],opened⟩

-- The queue gives batches out, loses consumers and lets messages expire as it
-- likes. A message it has given out it gives out again only when it is told to,
-- or has lost the consumer.
inductive Event where
  | setBinding
  | send (message : AnyQueueMessage) (thrown : Outcome)
  | sendBatch (messages : List AnyQueueMessage)
  | batchSent (sender : Nat) (thrown : Outcome)
  | deliver (batch : List Nat)
  | handled (consumer : Nat) (outcome : Outcome)
  | lose (consumer : Nat)
  | expire (cell : Nat)

section Steps
variable (options : Options) (ids : Nat → Text)

-- The queue names what it takes.
def State.accept (s : State) (sender : Nat) (messages : List AnyQueueMessage) : Deliveries.State Message Outcome Tally :=
  s.queue.accept (messages.mapIdx fun i message => ⟨ids (s.queue.cells.length+i),message,sender⟩)

-- What queue.sendBatch makes of a batch.
def Sender.settle (sender : Sender) (batch : List AnyQueueMessage) (rest : List (List AnyQueueMessage)) (thrown : Outcome) : Sender :=
  { sender with left := rest, results := sender.results ++ batch.map (thrown.elim SendResult.sent fun reason => .failed (sendError reason)) }

def State.settle (s : State) (k : Nat) (batch : List AnyQueueMessage) (thrown : Outcome) : Deliveries.State Message Outcome Tally :=
  match thrown with
  | none => s.accept ids k batch
  | some _ => s.queue

-- With a maxBatchSize of 0 sendBatch never gets out of its first loop, unless
-- it has nothing to send.
def step (s : State) : Event → Option State
  | .setBinding => some { s with bound := true }
  | .send message thrown =>
    if s.bound then
      some { s with
        senders := s.senders ++ [Sender.settle ⟨[message],[[message]],[]⟩ [message] [] thrown]
        queue := s.settle ids s.senders.length [message] thrown }
    else some { s with senders := s.senders ++ [⟨[message],[],[.failed notInitialized message]⟩] }
  | .sendBatch messages =>
    if s.bound then
      if options.maxBatchSize = 0 ∧ messages ≠ [] then none
      else some { s with senders := s.senders ++ [⟨messages,batches options.maxBatchSize messages,[]⟩] }
    else some { s with senders := s.senders ++ [⟨messages,[],messages.map (.failed notInitialized)⟩] }
  | .batchSent k thrown => do
    let sender ← s.senders[k]?
    match sender.left with
    | [] => none
    | batch :: rest => some { s with senders := s.senders.set k (sender.settle batch rest thrown), queue := s.settle ids k batch thrown }
  | .deliver batch => do
    let queue ← Deliveries.step (system options) s.queue (.deliver batch)
    some { s with queue := queue }
  | .handled c outcome => do
    let queue ← Deliveries.step (system options) s.queue (.answer c outcome)
    some { s with queue := queue }
  | .lose c => do
    let queue ← Deliveries.step (system options) s.queue (.lose c)
    some { s with queue := queue }
  | .expire i => do
    let queue ← Deliveries.step (system options) s.queue (.expire i)
    some { s with queue := queue }

end Steps

theorem batchesFrom_flatten (positive : 0 < maxBatchSize) (messages : List α) (turns i : Nat) (enough : messages.length ≤ i+turns) :
    (batchesFrom maxBatchSize messages turns i).flatten = messages.drop i := by
  induction turns generalizing i with
  | zero => exact (List.drop_eq_nil_of_le enough).symm
  | succ turns ih =>
    rw [batchesFrom]
    split
    · rw [List.flatten_cons,ih (i+maxBatchSize) (by omega),← List.drop_drop,List.take_append_drop]
    · exact (List.drop_eq_nil_of_le (by omega)).symm

theorem batches_flatten (messages : List α) (sendable : ¬(maxBatchSize = 0 ∧ messages ≠ [])) : (batches maxBatchSize messages).flatten = messages := by
  cases messages with
  | nil => rfl
  | cons first rest =>
    have positive : 0 < maxBatchSize := by
      by_contra zero
      exact sendable ⟨by omega,List.cons_ne_nil first rest⟩
    exact (batchesFrom_flatten positive _ _ 0 (by omega)).trans List.drop_zero

-- The messages that a caller is told were sent, in its order.
def Sender.delivered (sender : Sender) : List AnyQueueMessage :=
  ((sender.messages.zip sender.results).filter fun pair => pair.2.success).map Prod.fst

-- A sender has a result for each message it is through with, under its id.
structure Sender.Sound (sender : Sender) (done : List AnyQueueMessage) : Prop where
  parts : sender.messages = done ++ sender.left.flatten
  named : sender.results.map SendResult.messageId = done.map AnyQueueMessage.id

theorem delivered_done {sender : Sender} (sound : sender.Sound done) :
    sender.delivered = ((done.zip sender.results).filter fun pair => pair.2.success).map Prod.fst := by
  have sizes := congrArg List.length sound.named
  rw [List.length_map,List.length_map] at sizes
  rw [Sender.delivered,sound.parts]
  conv_lhs => rw [← List.append_nil sender.results]
  rw [List.zip_append sizes.symm,List.zip_nil_right,List.append_nil]

theorem settle_sound {sender : Sender} (sound : sender.Sound done) (first : sender.left = batch :: rest) (thrown : Outcome) :
    (sender.settle batch rest thrown).Sound (done ++ batch) where
  parts := by
    rw [Sender.settle,sound.parts,first,List.flatten_cons,List.append_assoc]
  named := by
    rw [Sender.settle,List.map_append,List.map_append,sound.named,List.map_map]
    congr 1
    cases thrown <;> rfl

theorem zip_results (success : Bool) (result : AnyQueueMessage → SendResult) (same : ∀ message, (result message).success = success)
    (batch : List AnyQueueMessage) :
    ((batch.zip (batch.map result)).filter fun pair => pair.2.success).map Prod.fst = if success then batch else [] := by
  induction batch with
  | nil => split <;> rfl
  | cons message batch ih =>
    rw [List.map_cons,List.zip_cons_cons,List.filter_cons]
    cases success with
    | true => simpa [same message] using ih
    | false => simpa [same message] using ih

theorem settle_delivered {sender : Sender} (sound : sender.Sound done) (first : sender.left = batch :: rest) (thrown : Outcome) :
    (sender.settle batch rest thrown).delivered = sender.delivered ++ if thrown.isNone then batch else [] := by
  have sizes := congrArg List.length sound.named
  rw [List.length_map,List.length_map] at sizes
  rw [delivered_done (settle_sound sound first thrown),delivered_done sound,Sender.settle,List.zip_append sizes.symm,List.filter_append,
    List.map_append]
  congr 1
  cases thrown with
  | none => exact zip_results true SendResult.sent (fun _ => rfl) batch
  | some reason => exact zip_results false (SendResult.failed (sendError reason)) (fun _ => rfl) batch

-- What the queue has had of a sender, in the order in which it came.
def State.messages (s : State) : List Message := s.queue.cells.map Cell.message

def from_ (k : Nat) (messages : List Message) : List AnyQueueMessage := (messages.filter fun message => message.sender = k).map Message.body

structure Sound (options : Options) (s : State) : Prop where
  queue : Deliveries.Sound (system options) s.queue
  known : ∀ message ∈ s.messages, message.sender < s.senders.length
  answered : ∀ sender ∈ s.senders, ∃ done, sender.Sound done
  sent : ∀ k sender, s.senders[k]? = some sender → from_ k s.messages = sender.delivered

theorem from_accept (ids : Nat → Text) (s : State) (k j : Nat) (batch : List AnyQueueMessage) :
    from_ j ((s.accept ids k batch).cells.map Cell.message) = from_ j s.messages ++ if j = k then batch else [] := by
  let added : List Message := batch.mapIdx fun i message => ⟨ids (s.queue.cells.length+i),message,k⟩
  have named : ∀ message ∈ added, message.sender = k := by
    intro message member
    obtain ⟨i,-,rfl⟩ := List.mem_mapIdx.mp member
    rfl
  have bodies : added.map Message.body = batch := by
    refine List.ext_getElem (by simp [added]) ?_
    intro i _ _
    simp [added]
  have all : (s.accept ids k batch).cells.map Cell.message = s.messages ++ added := by
    rw [State.accept,Deliveries.State.accept,List.map_append,List.map_map]
    exact congrArg (s.messages ++ ·) (List.map_id _)
  rw [all,from_,List.filter_append,List.map_append,from_]
  congr 1
  split
  · rename_i same
    rw [List.filter_eq_self.mpr fun message member => by simp [named message member,same],bodies]
  · rename_i other
    rw [List.filter_eq_nil_iff.mpr fun message member => by simp [named message member,Ne.symm other]]
    rfl

theorem known_accept {s : State} (known : ∀ message ∈ s.messages, message.sender < n) (ids : Nat → Text) (first : k < n)
    (batch : List AnyQueueMessage) : ∀ message ∈ (s.accept ids k batch).cells.map Cell.message, message.sender < n := by
  rw [State.accept,Deliveries.State.accept,List.map_append,List.map_map]
  refine List.forall_mem_append.mpr ⟨known,?_⟩
  intro message member
  obtain ⟨other,inside,rfl⟩ := List.mem_map.mp member
  obtain ⟨i,-,rfl⟩ := List.mem_mapIdx.mp inside
  exact first

variable {options : Options} {ids : Nat → Text} {s t : State}

theorem from_settle (s : State) (k j : Nat) (batch : List AnyQueueMessage) (thrown : Outcome) :
    from_ j ((s.settle ids k batch thrown).cells.map Cell.message) = from_ j s.messages ++ if j = k ∧ thrown.isNone then batch else [] := by
  cases thrown with
  | none => simpa [State.settle] using from_accept ids s k j batch
  | some reason => simp [State.settle,State.messages]

theorem settle_queue (sound : Sound options s) (k : Nat) (batch : List AnyQueueMessage) (thrown : Outcome) :
    Deliveries.Sound (system options) (s.settle ids k batch thrown) := by
  cases thrown with
  | none => exact step_sound sound.queue (rfl : Deliveries.step (system options) s.queue (.accept _) = some _)
  | some reason => exact sound.queue

theorem settle_known {s : State} (known : ∀ message ∈ s.messages, message.sender < n) (ids : Nat → Text) (first : k < n) (batch : List AnyQueueMessage)
    (thrown : Outcome) : ∀ message ∈ (s.settle ids k batch thrown).cells.map Cell.message, message.sender < n := by
  cases thrown with
  | none => exact known_accept known ids first batch
  | some reason => exact known

-- A call that has just come in: nothing in the queue is its own.
theorem from_new (sound : Sound options s) : from_ s.senders.length s.messages = [] := by
  rw [from_,List.filter_eq_nil_iff.mpr ?_]
  · rfl
  · intro message member
    have less := sound.known message member
    simp
    omega

theorem called_sound (sound : Sound options s) {sender : Sender} (answered : sender.Sound done) (unsent : sender.delivered = []) :
    Sound options { s with senders := s.senders ++ [sender] } where
  queue := sound.queue
  known := by
    intro message member
    have less := sound.known message member
    simp only [List.length_append]
    omega
  answered := forall_append sound.answered ⟨done,answered⟩
  sent := by
    intro k other found
    obtain old | ⟨rfl,rfl⟩ := found_append found
    · exact sound.sent k other old
    · exact (from_new sound).trans unsent.symm

theorem settled_sound (ids : Nat → Text) (sound : Sound options s) {sender : Sender} (there : s.senders[k]? = some sender) (first : sender.left = batch :: rest)
    (thrown : Outcome) :
    Sound options { s with senders := s.senders.set k (sender.settle batch rest thrown), queue := s.settle ids k batch thrown } where
  queue := settle_queue sound k batch thrown
  known := by
    have inside := (List.getElem?_eq_some_iff.mp there).1
    simpa [State.messages] using settle_known sound.known ids inside batch thrown
  answered := by
    obtain ⟨done,answered⟩ := sound.answered sender (List.mem_of_getElem? there)
    exact forall_set sound.answered ⟨_,settle_sound answered first thrown⟩
  sent := by
    intro j other found
    obtain ⟨done,answered⟩ := sound.answered sender (List.mem_of_getElem? there)
    rw [State.messages,from_settle]
    obtain ⟨rfl,rfl⟩ | ⟨apart,old⟩ := found_set found
    · rw [settle_delivered answered first,sound.sent j sender there]
      simp
    · rw [sound.sent j other old]
      simp [apart]

theorem queued_sound (sound : Sound options s) {event : Deliveries.Event Message Outcome}
    (stepped : Deliveries.step (system options) s.queue event = some queue) (quiet : ∀ messages, event ≠ .accept messages) :
    Sound options { s with queue := queue } := by
  have same := messages_kept stepped quiet
  refine ⟨step_sound sound.queue stepped,?_,sound.answered,?_⟩
  · rw [State.messages,same]
    exact sound.known
  · rw [State.messages,same]
    exact sound.sent

-- A caller without a binding is told of every message that it was not sent.
theorem refused_sound (sound : Sound options s) (messages : List AnyQueueMessage) :
    Sound options { s with senders := s.senders ++ [⟨messages,[],messages.map (.failed notInitialized)⟩] } := by
  have answered : Sender.Sound ⟨messages,[],messages.map (.failed notInitialized)⟩ messages := by
    refine ⟨(List.append_nil messages).symm,?_⟩
    rw [List.map_map]
    rfl
  exact called_sound sound answered (zip_results false (SendResult.failed notInitialized) (fun _ => rfl) messages)

theorem sound_step (sound : Sound options s) (stepped : step options ids s event = some t) : Sound options t := by
  cases event with
  | setBinding =>
    cases stepped
    exact ⟨sound.queue,sound.known,sound.answered,sound.sent⟩
  | send message thrown =>
    simp only [step] at stepped
    split at stepped
    · cases stepped
      have called := called_sound sound (⟨rfl,rfl⟩ : Sender.Sound ⟨[message],[[message]],[]⟩ []) rfl
      have there : (s.senders ++ [(⟨[message],[[message]],[]⟩ : Sender)])[s.senders.length]? = some ⟨[message],[[message]],[]⟩ :=
        List.getElem?_concat_length
      have settled := settled_sound ids called there rfl thrown
      rw [List.set_append_right _ _ (Nat.le_refl _),Nat.sub_self] at settled
      exact settled
    · cases stepped
      exact refused_sound sound [message]
  | sendBatch messages =>
    simp only [step] at stepped
    split at stepped
    · split at stepped
      · cases stepped
      · rename_i sendable
        cases stepped
        have answered : Sender.Sound ⟨messages,batches options.maxBatchSize messages,[]⟩ [] := ⟨(batches_flatten messages sendable).symm,rfl⟩
        exact called_sound sound answered (by simp [Sender.delivered])
    · cases stepped
      exact refused_sound sound messages
  | batchSent k thrown =>
    obtain ⟨sender,there,rest_⟩ := Option.bind_eq_some_iff.mp stepped
    split at rest_
    · cases rest_
    · rename_i batch rest first
      cases rest_
      exact settled_sound ids sound there first thrown
  | deliver batch =>
    obtain ⟨queue,turned,made⟩ := Option.bind_eq_some_iff.mp stepped
    cases made
    exact queued_sound sound turned (by simp)
  | handled c outcome =>
    obtain ⟨queue,turned,made⟩ := Option.bind_eq_some_iff.mp stepped
    cases made
    exact queued_sound sound turned (by simp)
  | lose c =>
    obtain ⟨queue,turned,made⟩ := Option.bind_eq_some_iff.mp stepped
    cases made
    exact queued_sound sound turned (by simp)
  | expire i =>
    obtain ⟨queue,turned,made⟩ := Option.bind_eq_some_iff.mp stepped
    cases made
    exact queued_sound sound turned (by simp)

theorem created_sound : Sound options created where
  queue := opened_sound
  known := by simp [State.messages,created,opened]
  answered := by simp [created]
  sent := by simp [created]

-- What is logged when a message is dropped.
def logs (options : Options) (message : Message) (attempts : Nat) : Outcome → Option Text
  | none => none
  | some error => if options.maxRetries ≤ attempts then some (droppedLine message attempts error) else none

theorem turn_processed (tally : Tally) (message : Message) (attempts : Nat) (outcome : Outcome) :
    ((system options).turn tally message attempts outcome).1.processed = tally.processed+if outcome.isNone then 1 else 0 := by
  cases outcome with
  | none => rfl
  | some error =>
    simp only [system,processMessage]
    split <;> rfl

theorem turn_counted (tally : Tally) (message : Message) (attempts : Nat) (outcome : Outcome) :
    ((system options).turn tally message attempts outcome).1.processed+((system options).turn tally message attempts outcome).1.failed =
      tally.processed+tally.failed+1 := by
  cases outcome with
  | none =>
    simp only [system,processMessage]
    omega
  | some error =>
    simp only [system,processMessage]
    split <;> dsimp only <;> omega

theorem turn_logged (line : Text) (tally : Tally) (message : Message) (attempts : Nat) (outcome : Outcome) :
    ((system options).turn tally message attempts outcome).1.logged.count line =
      tally.logged.count line+if logs options message attempts outcome = some line then 1 else 0 := by
  cases outcome with
  | none => rfl
  | some error =>
    by_cases again : attempts < options.maxRetries
    · simp [system,processMessage,logs,again,Nat.not_le.mpr again]
    · simp [system,processMessage,logs,again,Nat.le_of_not_lt again,List.count_append,List.count_singleton]

-- Failures after each of which the message is asked for again.
def Again (options : Options) (outcomes : List (Nat × Outcome)) : Prop := ∀ outcome ∈ outcomes, outcome.2 ≠ none ∧ outcome.1 < options.maxRetries

-- How the handler has fared with a message: on each delivery it was called once
-- at most, and the message is out of the queue only behind a success or a
-- failure on delivery maxRetries or later.
structure Standing (options : Options) (cell : Cell Message Outcome) : Prop where
  numbered : cell.outcomes.Pairwise fun one two => one.1 < two.1
  bounded : cell.outcomes.length ≤ max 1 options.maxRetries
  pending : cell.stage ≠ .settled → Again options cell.outcomes
  ended : cell.stage = .settled → ∃ earlier attempts outcome, cell.outcomes = earlier ++ [(attempts,outcome)] ∧ Again options earlier ∧
    (outcome = none ∨ options.maxRetries ≤ attempts)

def succeeded (cell : Cell Message Outcome) : Bool := cell.last.any fun outcome => outcome.2.isNone

def droppedWith (options : Options) (line : Text) (cell : Cell Message Outcome) : Bool :=
  cell.last.any fun outcome => logs options cell.message outcome.1 outcome.2 = some line

structure Accounted (options : Options) (s : State) : Prop where
  answered : ∀ sender ∈ s.senders, ∃ done, sender.Sound done
  sent : ∀ k sender, s.senders[k]? = some sender → from_ k s.messages = sender.delivered
  standing : ∀ cell ∈ s.queue.cells, Standing options cell
  held : ∀ i c, s.queue.stageAt i = some (.held c) ↔ i ∈ s.queue.leftOf c
  consumed : ∀ consumer ∈ s.queue.consumers, consumer.memory.processed+consumer.memory.failed = consumer.answers.length ∧
    (consumer.lost = false → consumer.batch = consumer.answers.map Answer.cell ++ consumer.left)
  processed : total (fun consumer => consumer.memory.processed) s.queue.consumers = s.queue.cells.countP succeeded
  logged : ∀ line, total (fun consumer => consumer.memory.logged.count line) s.queue.consumers = s.queue.cells.countP (droppedWith options line)

theorem unsettled_again (outcome : Nat × Outcome) (again : settles options outcome.1 outcome.2 = false) :
    outcome.2 ≠ none ∧ outcome.1 < options.maxRetries := by
  simpa [settles,Option.isSome_iff_ne_none] using again

theorem cell_standing {cell : Cell Message Outcome} (sound : cell.Sound (settles options)) : Standing options cell where
  numbered := sound.numbered
  bounded := answers_bounded sound fun attempts outcome again => (unsettled_again (attempts,outcome) again).2
  pending := fun open_ outcome member => unsettled_again outcome (sound.unsettled open_ outcome member)
  ended := by
    intro closed
    obtain ⟨earlier,last,parts,settling,unsettled⟩ := sound.settled closed
    refine ⟨earlier,last.1,last.2,parts,?_,?_⟩
    · exact fun outcome member => unsettled_again outcome (unsettled outcome member)
    · simpa [settles] using settling

-- The second of two batches does not reach the queue; the handler fails twice
-- with the second message, once while another consumer is lost with the first.
def threeSent : List Event :=
  let message (id : String) : AnyQueueMessage := ⟨id.toList,.compile,none⟩
  [.setBinding,.sendBatch [message "a",message "b",message "c"],.batchSent 0 none,.deliver [0],.deliver [1],
    .batchSent 0 (some (.error "gone".toList)),.handled 1 (some (.error "bad".toList)),.lose 0,.deliver [1,0],
    .handled 2 (some (.error "bad".toList)),.handled 2 none]

end AdblockCompiler.QueueProvider
