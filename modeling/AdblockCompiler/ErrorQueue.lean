import AdblockCompiler.Header
import AdblockCompiler.Hosts
import AdblockCompiler.JsonText
import AdblockCompiler.Schedules

-- The consumer of the error queue: each batch becomes one object of a bucket,
-- and an index of the hour is read and put back to tell of it. Batches are
-- consumed side by side, and an attempt may end after any of its operations.
namespace AdblockCompiler.ErrorQueue
open JsText JsonText Schedules
open Header (Date)
open Hosts (decimal decimal_digit decimal_injective)

inductive ErrorSeverity where
  | critical | error | warning | info
  deriving DecidableEq

inductive ErrorCategory where
  | http_error | validation_error | auth_error | rate_limit_error | compilation_error | storage_error | queue_error | workflow_error
  | unknown_error
  deriving DecidableEq

def ErrorSeverity.all : List ErrorSeverity := [.critical,.error,.warning,.info]

def ErrorCategory.all : List ErrorCategory :=
  [.http_error,.validation_error,.auth_error,.rate_limit_error,.compilation_error,.storage_error,.queue_error,.workflow_error,.unknown_error]

def ErrorSeverity.text : ErrorSeverity → Text
  | .critical => "critical".toList
  | .error => "error".toList
  | .warning => "warning".toList
  | .info => "info".toList

def ErrorCategory.text : ErrorCategory → Text
  | .http_error => "http_error".toList
  | .validation_error => "validation_error".toList
  | .auth_error => "auth_error".toList
  | .rate_limit_error => "rate_limit_error".toList
  | .compilation_error => "compilation_error".toList
  | .storage_error => "storage_error".toList
  | .queue_error => "queue_error".toList
  | .workflow_error => "workflow_error".toList
  | .unknown_error => "unknown_error".toList

structure ErrorQueueMessage where
  requestId : Text
  timestamp : Text
  path : Text
  method : Text
  message : Text
  stack : Option Text := none
  errorDetails : Text
  severity : Option ErrorSeverity := none
  category : Option ErrorCategory := none
  statusCode : Option Number := none
  context : Option Text := none

theorem decimal_number (n : Nat) : (decimal n).all isNumberChar = true :=
  List.all_eq_true.mpr fun c member => by simp [isNumberChar,decimal_digit member]

def number (n : Nat) : Json := .number ⟨decimal n,decimal_number n,Nat.toDigits_ne_nil⟩

-- Fields of an object, where an undefined one is left out.
def given (name : String) (value : Option Json) (rest : List (Text × Json)) : List (Text × Json) :=
  match value with
  | none => rest
  | some value => (name.toList,value) :: rest

def ErrorQueueMessage.json (m : ErrorQueueMessage) : Json :=
  .object (("type".toList,.string "error".toList) :: ("requestId".toList,.string m.requestId) ::
    ("timestamp".toList,.string m.timestamp) :: ("path".toList,.string m.path) :: ("method".toList,.string m.method) ::
    ("message".toList,.string m.message) ::
    given "stack" (m.stack.map .string) (("errorDetails".toList,.string m.errorDetails) ::
      given "severity" (m.severity.map fun severity => .string severity.text) (
        given "category" (m.category.map fun category => .string category.text) (
          given "statusCode" (m.statusCode.map .number) (given "context" (m.context.map .string) [])))))

-- String.prototype.padStart with two places and zeros.
def padStart (text : Text) : Text := text.leftpad 2 '0'

def yearText (year : Int) : Text := if year < 0 then '-' :: decimal year.natAbs else decimal year.natAbs

-- `errors/YYYY/MM/DD/HH/` and a name.
def hourPath (date : Date) (name : Text) : Text :=
  "errors/".toList ++ (yearText date.year ++ '/' :: (padStart (decimal date.month) ++ '/' :: (padStart (decimal date.day) ++
    '/' :: (padStart (decimal date.hours) ++ '/' :: name))))

def buildErrorLogKey (date : Date) (batchId : Text) (compressed : Bool) : Text :=
  hourPath date (batchId ++ '.' :: (if compressed then "ndjson.gz".toList else "ndjson".toList))

def buildErrorIndexKey (date : Date) : Text := hourPath date "_index.json".toList

def serializeToNdjson (messages : List ErrorQueueMessage) : Text :=
  ['\n'].intercalate (messages.map fun m => stringify m.json)

def COMPRESSION_THRESHOLD_BYTES : Nat := 1024

-- The length of what TextEncoder makes of a text.
def encodedLength (data : Text) : Nat := total Char.utf8Size data

-- γ is what CompressionStream makes of a text.
inductive Body (γ : Type) where
  | plain (data : Text)
  | compressed (data : γ)
  deriving DecidableEq

def Body.isCompressed : Body γ → Bool
  | .plain _ => false
  | .compressed _ => true

def maybeCompress (gzip : Text → γ) (data : Text) : Body γ :=
  if encodedLength data < COMPRESSION_THRESHOLD_BYTES then .plain data else .compressed (gzip data)

structure Metrics where
  bySeverity : ErrorSeverity → Nat
  byCategory : ErrorCategory → Nat

def Metrics.count (metrics : Metrics) (msg : ErrorQueueMessage) : Metrics :=
  let severity := msg.severity.getD .error
  let category := msg.category.getD .unknown_error
  ⟨Function.update metrics.bySeverity severity (metrics.bySeverity severity+1),
    Function.update metrics.byCategory category (metrics.byCategory category+1)⟩

def aggregateMetrics (messages : List ErrorQueueMessage) : Metrics := messages.foldl Metrics.count ⟨fun _ => 0,fun _ => 0⟩

structure BatchEntry where
  batchId : Text
  key : Text
  count : Nat
  writtenAt : Text

structure ErrorIndexEntry where
  hour : Text
  totalErrors : Nat
  metrics : Metrics
  batches : List BatchEntry
  lastUpdated : Text

structure CustomMetadata where
  batchSize : Nat
  queueName : Text
  writtenAt : Text
  compressed : Bool
  metrics : ErrorSeverity → Nat

inductive Stored (γ : Type) where
  | log (body : Body γ) (metadata : CustomMetadata)
  | index (entry : ErrorIndexEntry)

def Stored.entry : Stored γ → Option ErrorIndexEntry
  | .index entry => some entry
  | .log _ _ => none

-- A batch as it is delivered, with the time and the identifier drawn for it.
structure Batch where
  messages : List ErrorQueueMessage
  queue : Text
  now : Date
  millis : Nat
  uuid : Text

def Batch.batchId (batch : Batch) : Text := decimal batch.millis ++ '-' :: batch.uuid
def Batch.body (gzip : Text → γ) (batch : Batch) : Body γ := maybeCompress gzip (serializeToNdjson batch.messages)
def Batch.logKey (gzip : Text → γ) (batch : Batch) : Text := buildErrorLogKey batch.now batch.batchId (batch.body gzip).isCompressed
def Batch.indexKey (batch : Batch) : Text := buildErrorIndexKey batch.now

def Batch.log (gzip : Text → γ) (batch : Batch) : Stored γ :=
  .log (batch.body gzip) ⟨batch.messages.length,batch.queue,batch.now.toISOString,(batch.body gzip).isCompressed,(aggregateMetrics batch.messages).bySeverity⟩

def Batch.entry (gzip : Text → γ) (batch : Batch) : BatchEntry :=
  ⟨batch.batchId,batch.logKey gzip,batch.messages.length,batch.now.toISOString⟩

-- hourStart.setMinutes(0, 0, 0), where local time is UTC
def hourStart (date : Date) : Date := { date with minutes := 0, seconds := 0, milliseconds := 0 }

def updateErrorIndex (gzip : Text → γ) (batch : Batch) (lastUpdated : Date) (existing : Option ErrorIndexEntry) : ErrorIndexEntry :=
  let metrics := aggregateMetrics batch.messages
  match existing with
  | some existing =>
    { hour := existing.hour
      totalErrors := existing.totalErrors+batch.messages.length
      metrics := ⟨fun severity => existing.metrics.bySeverity severity+metrics.bySeverity severity,
        fun category => existing.metrics.byCategory category+metrics.byCategory category⟩
      batches := existing.batches ++ [batch.entry gzip]
      lastUpdated := lastUpdated.toISOString }
  | none =>
    { hour := (hourStart batch.now).toISOString
      totalErrors := batch.messages.length
      metrics := metrics
      batches := [batch.entry gzip]
      lastUpdated := lastUpdated.toISOString }

section Keys

theorem padStart_injective (same : padStart (decimal m) = padStart (decimal n)) : m = n := by
  have value : ∀ width k, Nat.ofDigitChars 10 (List.replicate width '0' ++ decimal k) 0 = k := by
    intro width k
    induction width with
    | zero => simp [decimal]
    | succ width ih => simpa [List.replicate_succ,Nat.ofDigitChars] using ih
  have read := congrArg (Nat.ofDigitChars 10 · 0) same
  simp only [padStart,List.leftpad,value] at read
  exact read

theorem slash_decimal (n : Nat) : '/' ∉ decimal n := fun member => by cases decimal_digit member
theorem minus_decimal (n : Nat) : '-' ∉ decimal n := fun member => by cases decimal_digit member

theorem slash_padStart (n : Nat) : '/' ∉ padStart (decimal n) := by
  simp [padStart,List.leftpad,slash_decimal]

theorem slash_year (year : Int) : '/' ∉ yearText year := by
  unfold yearText
  split <;> simp [slash_decimal]

theorem yearText_injective (same : yearText one = yearText two) : one = two := by
  unfold yearText at same
  split at same <;> split at same
  · have sizes := decimal_injective (List.cons.inj same).2
    omega
  · exact absurd (same ▸ List.mem_cons_self) (minus_decimal _)
  · exact absurd (same.symm ▸ List.mem_cons_self) (minus_decimal _)
  · have sizes := decimal_injective same
    omega

-- Objects under the path of one hour are those of that hour.
theorem hourPath_read {one two : Date} {x y : Text} (same : hourPath one x = hourPath two y) : hourStart one = hourStart two ∧ x = y := by
  obtain ⟨years,same⟩ := mark_unique (slash_year _) (slash_year _) (List.append_cancel_left same)
  obtain ⟨months,same⟩ := mark_unique (slash_padStart _) (slash_padStart _) same
  obtain ⟨days,same⟩ := mark_unique (slash_padStart _) (slash_padStart _) same
  obtain ⟨hours,same⟩ := mark_unique (slash_padStart _) (slash_padStart _) same
  refine ⟨?_,same⟩
  cases one
  cases two
  obtain rfl := yearText_injective years
  obtain rfl := padStart_injective months
  obtain rfl := padStart_injective days
  obtain rfl := padStart_injective hours
  rfl

theorem indexKey_hour (same : buildErrorIndexKey one = buildErrorIndexKey two) : hourStart one = hourStart two := (hourPath_read same).1

-- No log is kept where an index is.
theorem logKey_apart (gzip : Text → γ) (one two : Batch) : one.logKey gzip ≠ two.indexKey := by
  intro same
  have names := congrArg (fun name : Text => name.reverse[4]?) (hourPath_read same).2
  cases compressed : (one.body gzip).isCompressed with
  | true =>
    rw [compressed] at names
    simp at names
  | false =>
    rw [compressed] at names
    simp at names

theorem logKey_injective (gzip : Text → γ) {one two : Batch} (same : one.logKey gzip = two.logKey gzip) : one.batchId = two.batchId := by
  have names := (hourPath_read same).2
  have lasts := congrArg (fun name : Text => name.reverse[0]?) names
  cases first : (one.body gzip).isCompressed with
  | true =>
    cases second : (two.body gzip).isCompressed with
    | true =>
      rw [first,second] at names
      exact List.append_cancel_right names
    | false =>
      rw [first,second] at lasts
      simp at lasts
  | false =>
    cases second : (two.body gzip).isCompressed with
    | true =>
      rw [first,second] at lasts
      simp at lasts
    | false =>
      rw [first,second] at names
      exact List.append_cancel_right names

end Keys

section Lines

def Apart (name : String) (fields : List (Text × Json)) : Prop := ∀ entry ∈ fields, entry.1 ≠ name.toList

theorem apart_nil : Apart name [] := fun _ member => by cases member

theorem apart_given (other : mark.toList ≠ name.toList) (rest : Apart name fields) : Apart name (given mark value fields) := by
  cases value with
  | none => exact rest
  | some value => exact List.forall_mem_cons.mpr ⟨other,rest⟩

theorem given_read {name : String} {one two : Option Json} {x y : List (Text × Json)} (apartX : Apart name x) (apartY : Apart name y)
    (same : given name one x = given name two y) : one = two ∧ x = y := by
  cases one with
  | none =>
    cases two with
    | none => exact ⟨rfl,same⟩
    | some value =>
      obtain rfl : x = (name.toList,value) :: y := same
      exact absurd rfl (apartX _ List.mem_cons_self)
  | some value =>
    cases two with
    | none =>
      obtain rfl : (name.toList,value) :: x = y := same
      exact absurd rfl (apartY _ List.mem_cons_self)
    | some other =>
      obtain ⟨first,rest⟩ := List.cons.inj same
      exact ⟨congrArg some (Prod.mk.inj first).2,rest⟩

theorem severity_injective : Function.Injective ErrorSeverity.text := by
  intro one two same
  cases one <;> cases two <;> first | rfl | exact absurd same (by decide)

theorem category_injective : Function.Injective ErrorCategory.text := by
  intro one two same
  cases one <;> cases two <;> first | rfl | exact absurd same (by decide)

theorem string_injective : Function.Injective Json.string := fun _ _ same => Json.string.inj same

theorem apart_context (other : "context".toList ≠ name.toList) (value : Option Json) : Apart name (given "context" value []) :=
  apart_given other apart_nil

theorem json_injective : Function.Injective ErrorQueueMessage.json := by
  intro one two same
  have fields := Json.object.inj same
  simp only [List.cons.injEq,Prod.mk.injEq,true_and,Json.string.injEq] at fields
  obtain ⟨requests,times,paths,methods,texts,fields⟩ := fields
  have after : ∀ (details : Json) severity category status context, Apart "stack" (("errorDetails".toList,details) ::
      given "severity" severity (given "category" category (given "statusCode" status (given "context" context [])))) := by
    intro details severity category status context
    have first : "errorDetails".toList ≠ "stack".toList := by decide
    refine List.forall_mem_cons.mpr ⟨first,?_⟩
    exact apart_given (by decide) (apart_given (by decide) (apart_given (by decide) (apart_context (by decide) context)))
  obtain ⟨traces,fields⟩ := given_read (after _ _ _ _ _) (after _ _ _ _ _) fields
  simp only [List.cons.injEq,Prod.mk.injEq,true_and,Json.string.injEq] at fields
  obtain ⟨details,fields⟩ := fields
  have after : ∀ category status context, Apart "severity"
      (given "category" category (given "statusCode" status (given "context" context []))) := fun _ _ context =>
    apart_given (by decide) (apart_given (by decide) (apart_context (by decide) context))
  obtain ⟨severities,fields⟩ := given_read (after _ _ _) (after _ _ _) fields
  have after : ∀ status context, Apart "category" (given "statusCode" status (given "context" context [])) := fun _ context =>
    apart_given (by decide) (apart_context (by decide) context)
  obtain ⟨categories,fields⟩ := given_read (after _ _) (after _ _) fields
  obtain ⟨statuses,fields⟩ := given_read (apart_context (by decide) _) (apart_context (by decide) _) fields
  obtain ⟨contexts,-⟩ := given_read apart_nil apart_nil fields
  have stack := Option.map_injective string_injective traces
  have severity := Option.map_injective (string_injective.comp severity_injective) severities
  have category := Option.map_injective (string_injective.comp category_injective) categories
  have status := Option.map_injective (fun _ _ same => Json.number.inj same) statuses
  have context := Option.map_injective string_injective contexts
  cases one
  cases two
  congr

-- Each line of a log is one message.
theorem ndjson_lines (some_ : messages ≠ []) :
    (serializeToNdjson messages).splitOn '\n' = messages.map fun m => stringify m.json := by
  have whole : ∀ messages : List ErrorQueueMessage,
      (messages.map fun m => stringify m.json).flatMap (List.splitOn '\n') = messages.map fun m => stringify m.json := by
    intro messages
    induction messages with
    | nil => rfl
    | cons m rest ih => simp [List.splitOn_eq_singleton (stringify_single m.json),ih]
  rw [serializeToNdjson,splitOn_join (by simpa using some_),whole]

theorem ndjson_some (some_ : messages ≠ []) : serializeToNdjson messages ≠ [] := by
  intro empty
  have lines := ndjson_lines some_
  rw [empty] at lines
  obtain ⟨m,rest,rfl⟩ := List.exists_cons_of_ne_nil some_
  cases (List.cons.inj lines).1

-- What a log holds tells which messages it was made from.
theorem ndjson_injective : Function.Injective serializeToNdjson := by
  intro messages others same
  by_cases none_ : messages = []
  · subst none_
    by_contra more
    exact ndjson_some (Ne.symm more) same.symm
  · by_cases none' : others = []
    · subst none'
      exact absurd same (ndjson_some none_)
    · have lines := ndjson_lines none_
      rw [same,ndjson_lines none'] at lines
      exact List.map_injective_iff.mpr (fun _ _ same => json_injective (stringify_injective same)) lines.symm

end Lines

section Counting

theorem count_severity (messages : List ErrorQueueMessage) (metrics : Metrics) (severity : ErrorSeverity) :
    (messages.foldl Metrics.count metrics).bySeverity severity =
      metrics.bySeverity severity+messages.countP fun msg => msg.severity.getD .error = severity := by
  induction messages generalizing metrics with
  | nil => rfl
  | cons msg rest ih =>
    rw [List.foldl_cons,ih,List.countP_cons]
    by_cases mine : msg.severity.getD .error = severity
    · subst mine
      simp [Metrics.count]
      omega
    · simp [Metrics.count,Function.update_of_ne (Ne.symm mine),mine]

theorem count_category (messages : List ErrorQueueMessage) (metrics : Metrics) (category : ErrorCategory) :
    (messages.foldl Metrics.count metrics).byCategory category =
      metrics.byCategory category+messages.countP fun msg => msg.category.getD .unknown_error = category := by
  induction messages generalizing metrics with
  | nil => rfl
  | cons msg rest ih =>
    rw [List.foldl_cons,ih,List.countP_cons]
    by_cases mine : msg.category.getD .unknown_error = category
    · subst mine
      simp [Metrics.count]
      omega
    · simp [Metrics.count,Function.update_of_ne (Ne.symm mine),mine]

-- Counting by a label that every item has one of counts each item once.
theorem labels_total [DecidableEq τ] (label : α → τ) {labels : List τ} (distinct : labels.Nodup) (every : ∀ t, t ∈ labels) (items : List α) :
    total (fun t => items.countP fun item => label item = t) labels = items.length := by
  have counted := Multiset.sum_count_eq_card (s := labels.toFinset) (m := (items.map label : Multiset τ)) fun t _ => List.mem_toFinset.mpr (every t)
  rw [List.sum_toFinset _ distinct,Multiset.coe_card,List.length_map] at counted
  rw [← counted,total]
  congr 1
  refine List.map_congr_left ?_
  intro t _
  rw [Multiset.coe_count,List.count_eq_countP,List.countP_map]
  rfl

theorem batches_total [DecidableEq τ] (label : α → τ) {labels : List τ} (distinct : labels.Nodup) (every : ∀ t, t ∈ labels)
    (items : β → List α) (parties : List β) :
    total (fun t => total (fun party => (items party).countP fun item => label item = t) parties) labels =
      total (fun party => (items party).length) parties := by
  induction parties with
  | nil => simp [total]
  | cons party rest ih =>
    have own := labels_total label distinct every (items party)
    simp only [total,List.map_cons,List.sum_cons,List.sum_map_add] at own ih ⊢
    rw [own,ih]

end Counting

section Consumers
variable {ι γ : Type}

inductive Stage where
  | waiting
  | persisted
  | read (existing : Option ErrorIndexEntry)
  | indexed
  | stopped (stored : Bool)

-- Whether the log of the batch is in the bucket.
def Stage.stored : Stage → Bool
  | .waiting => false
  | .stopped stored => stored
  | .persisted | .read _ | .indexed => true

structure State (ι γ : Type) where
  bucket : Text → Option (Stored γ)
  stage : ι → Stage

-- A consumer puts its log, reads the index, puts it back, or throws between.
inductive Event (ι : Type) where
  | persist (consumer : ι)
  | read (consumer : ι)
  | write (consumer : ι) (lastUpdated : Date)
  | stop (consumer : ι)

def opened : State ι γ := ⟨fun _ => none,fun _ => .waiting⟩

variable [DecidableEq ι] (gzip : Text → γ) (batches : ι → Batch)

-- A batch without messages puts nothing. Logs are not read here: they are never
-- under the key of an index.
def step (s : State ι γ) : Event ι → Option (State ι γ)
  | .persist consumer =>
    match s.stage consumer with
    | .waiting =>
      if (batches consumer).messages = [] then none
      else some ⟨Function.update s.bucket ((batches consumer).logKey gzip) (some ((batches consumer).log gzip)),
        Function.update s.stage consumer .persisted⟩
    | _ => none
  | .read consumer =>
    match s.stage consumer with
    | .persisted =>
      some { s with stage := Function.update s.stage consumer (.read ((s.bucket (batches consumer).indexKey).bind Stored.entry)) }
    | _ => none
  | .write consumer lastUpdated =>
    match s.stage consumer with
    | .read existing =>
      some ⟨Function.update s.bucket (batches consumer).indexKey (some (.index (updateErrorIndex gzip (batches consumer) lastUpdated existing))),
        Function.update s.stage consumer .indexed⟩
    | _ => none
  | .stop consumer =>
    match s.stage consumer with
    | .indexed | .stopped _ => none
    | stage => some { s with stage := Function.update s.stage consumer (.stopped stage.stored) }

-- All that a step can do.
inductive Turn (s : State ι γ) : Event ι → State ι γ → Prop where
  | persist (waits : s.stage consumer = .waiting) (some_ : (batches consumer).messages ≠ []) :
      Turn s (.persist consumer) ⟨Function.update s.bucket ((batches consumer).logKey gzip) (some ((batches consumer).log gzip)),
        Function.update s.stage consumer .persisted⟩
  | read (persisted : s.stage consumer = .persisted) :
      Turn s (.read consumer)
        { s with stage := Function.update s.stage consumer (.read ((s.bucket (batches consumer).indexKey).bind Stored.entry)) }
  | write (reads : s.stage consumer = .read existing) :
      Turn s (.write consumer lastUpdated)
        ⟨Function.update s.bucket (batches consumer).indexKey (some (.index (updateErrorIndex gzip (batches consumer) lastUpdated existing))),
          Function.update s.stage consumer .indexed⟩
  | stop (unfinished : s.stage consumer ≠ .indexed) :
      Turn s (.stop consumer) { s with stage := Function.update s.stage consumer (.stopped (s.stage consumer).stored) }

variable {gzip batches} {s t : State ι γ}

theorem step_turn (stepped : step gzip batches s event = some t) : Turn gzip batches s event t := by
  cases event with
  | persist consumer =>
    simp only [step] at stepped
    split at stepped
    · split at stepped
      · cases stepped
      · cases stepped
        exact .persist ‹_› ‹_›
    · cases stepped
  | read consumer =>
    simp only [step] at stepped
    split at stepped
    · cases stepped
      exact .read ‹_›
    · cases stepped
  | write consumer lastUpdated =>
    simp only [step] at stepped
    split at stepped
    · cases stepped
      exact .write ‹_›
    · cases stepped
  | stop consumer =>
    simp only [step] at stepped
    split at stepped
    · cases stepped
    · cases stepped
    · rename_i unfinished _
      cases stepped
      exact .stop unfinished

-- What an index tells of: the batches of its hour that consumers have put into
-- it, each once.
structure Told (gzip : Text → γ) (batches : ι → Batch) (key : Text) (consumers : List ι) (entry : ErrorIndexEntry) : Prop where
  placed : ∀ consumer ∈ consumers, (batches consumer).indexKey = key
  hour : ∀ date, buildErrorIndexKey date = key → entry.hour = (hourStart date).toISOString
  listed : entry.batches = consumers.map fun consumer => (batches consumer).entry gzip
  totalErrors : entry.totalErrors = total (fun consumer => (batches consumer).messages.length) consumers
  bySeverity : ∀ severity, entry.metrics.bySeverity severity =
    total (fun consumer => (batches consumer).messages.countP fun msg => msg.severity.getD .error = severity) consumers
  byCategory : ∀ category, entry.metrics.byCategory category =
    total (fun consumer => (batches consumer).messages.countP fun msg => msg.category.getD .unknown_error = category) consumers

def Tells (gzip : Text → γ) (batches : ι → Batch) (stage : ι → Stage) (key : Text) (entry : ErrorIndexEntry) : Prop :=
  ∃ consumers, consumers.Nodup ∧ (∀ consumer ∈ consumers, stage consumer = .indexed) ∧ Told gzip batches key consumers entry

omit [DecidableEq ι] in
theorem aggregated (messages : List ErrorQueueMessage) :
    (∀ severity, (aggregateMetrics messages).bySeverity severity = messages.countP fun msg => msg.severity.getD .error = severity) ∧
      ∀ category, (aggregateMetrics messages).byCategory category = messages.countP fun msg => msg.category.getD .unknown_error = category := by
  constructor
  · intro severity
    simpa [aggregateMetrics] using count_severity messages ⟨fun _ => 0,fun _ => 0⟩ severity
  · intro category
    simpa [aggregateMetrics] using count_category messages ⟨fun _ => 0,fun _ => 0⟩ category

omit [DecidableEq ι] in
theorem told_first (batch : ι) (lastUpdated : Date) :
    Told gzip batches (batches batch).indexKey [batch] (updateErrorIndex gzip (batches batch) lastUpdated none) := by
  obtain ⟨severities,categories⟩ := aggregated (batches batch).messages
  refine ⟨by simp,?_,rfl,by simp [total,updateErrorIndex],?_,?_⟩
  · intro date same
    rw [indexKey_hour same]
    rfl
  · simpa [total,updateErrorIndex] using severities
  · simpa [total,updateErrorIndex] using categories

omit [DecidableEq ι] in
theorem told_next (told : Told gzip batches (batches batch).indexKey consumers entry) (lastUpdated : Date) :
    Told gzip batches (batches batch).indexKey (consumers ++ [batch]) (updateErrorIndex gzip (batches batch) lastUpdated (some entry)) := by
  obtain ⟨severities,categories⟩ := aggregated (batches batch).messages
  refine ⟨forall_append told.placed rfl,told.hour,?_,?_,?_,?_⟩
  · simp [updateErrorIndex,told.listed]
  · simp [updateErrorIndex,told.totalErrors,total]
  · intro severity
    simp [updateErrorIndex,told.bySeverity,severities,total]
  · intro category
    simp [updateErrorIndex,told.byCategory,categories,total]

structure Kept (gzip : Text → γ) (batches : ι → Batch) (s : State ι γ) : Prop where
  logs : ∀ consumer, (s.stage consumer).stored = true → s.bucket ((batches consumer).logKey gzip) = some ((batches consumer).log gzip)
  indexes : ∀ consumer body metadata, s.bucket (batches consumer).indexKey ≠ some (.log body metadata)
  entries : ∀ key entry, s.bucket key = some (.index entry) → Tells gzip batches s.stage key entry
  held : ∀ consumer entry, s.stage consumer = .read (some entry) → Tells gzip batches s.stage (batches consumer).indexKey entry

theorem tells_moved {stage : ι → Stage} (unfinished : stage consumer ≠ .indexed) (next : Stage)
    (tells : Tells gzip batches stage key entry) : Tells gzip batches (Function.update stage consumer next) key entry := by
  obtain ⟨consumers,once,done,told⟩ := tells
  refine ⟨consumers,once,?_,told⟩
  intro other member
  have apart : other ≠ consumer := fun same => unfinished (same ▸ done other member)
  rw [Function.update_of_ne apart]
  exact done other member

theorem tells_updated {stage : ι → Stage} (unfinished : stage consumer ≠ .indexed) (lastUpdated : Date)
    (reads : ∀ entry, existing = some entry → Tells gzip batches stage (batches consumer).indexKey entry) :
    Tells gzip batches (Function.update stage consumer .indexed) (batches consumer).indexKey
      (updateErrorIndex gzip (batches consumer) lastUpdated existing) := by
  cases existing with
  | none => exact ⟨[consumer],List.nodup_singleton consumer,by simp,told_first consumer lastUpdated⟩
  | some entry =>
    obtain ⟨consumers,once,done,told⟩ := reads entry rfl
    have fresh : consumer ∉ consumers := fun member => unfinished (done consumer member)
    refine ⟨consumers ++ [consumer],?_,?_,told_next told lastUpdated⟩
    · simpa [List.nodup_append] using ⟨once,fun other member same => fresh (same ▸ member)⟩
    · refine forall_append ?_ (Function.update_self ..)
      intro other member
      have apart : other ≠ consumer := fun same => fresh (same ▸ member)
      rw [Function.update_of_ne apart]
      exact done other member

omit [DecidableEq ι] in
theorem entry_read {stored : Option (Stored γ)} (found : stored.bind Stored.entry = some entry) : stored = some (.index entry) := by
  obtain ⟨object,same,inner⟩ := Option.bind_eq_some_iff.mp found
  cases object with
  | log body metadata => cases inner
  | index other =>
    cases inner
    exact same

theorem held_moved (kept : Kept gzip batches s) (unfinished : s.stage consumer ≠ .indexed) {next : Stage}
    (own : ∀ entry, next = .read (some entry) → Tells gzip batches s.stage (batches consumer).indexKey entry) :
    ∀ other entry, Function.update s.stage consumer next other = .read (some entry) →
      Tells gzip batches (Function.update s.stage consumer next) (batches other).indexKey entry := by
  intro other entry reads
  refine tells_moved unfinished next ?_
  by_cases same : other = consumer
  · subst same
    rw [Function.update_self] at reads
    exact own entry reads
  · rw [Function.update_of_ne same] at reads
    exact kept.held other entry reads

theorem stored_moved {stage : ι → Stage} {next : Stage} (own : next.stored = true → (stage consumer).stored = true)
    (stored : (Function.update stage consumer next other).stored = true) : (stage other).stored = true := by
  by_cases same : other = consumer
  · subst same
    rw [Function.update_self] at stored
    exact own stored
  · rwa [Function.update_of_ne same] at stored

theorem persist_keeps (ids : Function.Injective fun consumer => (batches consumer).batchId) (kept : Kept gzip batches s)
    (waits : s.stage consumer = .waiting) :
    Kept gzip batches ⟨Function.update s.bucket ((batches consumer).logKey gzip) (some ((batches consumer).log gzip)),
      Function.update s.stage consumer .persisted⟩ := by
  have unfinished : s.stage consumer ≠ .indexed := by simp [waits]
  refine ⟨?_,?_,?_,held_moved kept unfinished (by simp)⟩
  · intro other stored
    dsimp only at stored ⊢
    by_cases same : other = consumer
    · subst same
      exact Function.update_self ..
    · have apart : (batches other).logKey gzip ≠ (batches consumer).logKey gzip := fun equal => same (ids (logKey_injective gzip equal))
      rw [Function.update_of_ne same] at stored
      rw [Function.update_of_ne apart]
      exact kept.logs other stored
  · intro other body metadata
    dsimp only
    rw [Function.update_of_ne (logKey_apart gzip _ _).symm]
    exact kept.indexes other body metadata
  · intro key entry found
    dsimp only at found ⊢
    by_cases same : key = (batches consumer).logKey gzip
    · subst same
      rw [Function.update_self] at found
      cases found
    · rw [Function.update_of_ne same] at found
      exact tells_moved unfinished .persisted (kept.entries key entry found)

theorem read_keeps (kept : Kept gzip batches s) (persisted : s.stage consumer = .persisted) :
    Kept gzip batches { s with stage := Function.update s.stage consumer (.read ((s.bucket (batches consumer).indexKey).bind Stored.entry)) } := by
  have unfinished : s.stage consumer ≠ .indexed := by simp [persisted]
  refine ⟨?_,kept.indexes,fun key entry found => tells_moved unfinished _ (kept.entries key entry found),held_moved kept unfinished ?_⟩
  · intro other stored
    exact kept.logs other (stored_moved (fun _ => by simp [persisted,Stage.stored]) stored)
  · intro entry reads
    exact kept.entries _ entry (entry_read (Stage.read.inj reads))

theorem write_keeps (kept : Kept gzip batches s) (reads : s.stage consumer = .read existing) (lastUpdated : Date) :
    Kept gzip batches ⟨Function.update s.bucket (batches consumer).indexKey
        (some (.index (updateErrorIndex gzip (batches consumer) lastUpdated existing))),Function.update s.stage consumer .indexed⟩ := by
  have unfinished : s.stage consumer ≠ .indexed := by simp [reads]
  refine ⟨?_,?_,?_,held_moved kept unfinished (by simp)⟩
  · intro other stored
    dsimp only
    rw [Function.update_of_ne (logKey_apart gzip _ _)]
    exact kept.logs other (stored_moved (fun _ => by simp [reads,Stage.stored]) stored)
  · intro other body metadata
    dsimp only
    by_cases same : (batches other).indexKey = (batches consumer).indexKey
    · simp [same]
    · rw [Function.update_of_ne same]
      exact kept.indexes other body metadata
  · intro key entry found
    dsimp only at found ⊢
    by_cases same : key = (batches consumer).indexKey
    · subst same
      rw [Function.update_self] at found
      cases found
      refine tells_updated unfinished lastUpdated ?_
      intro entry same
      exact kept.held consumer entry (same ▸ reads)
    · rw [Function.update_of_ne same] at found
      exact tells_moved unfinished .indexed (kept.entries key entry found)

theorem stop_keeps (kept : Kept gzip batches s) (unfinished : s.stage consumer ≠ .indexed) :
    Kept gzip batches { s with stage := Function.update s.stage consumer (.stopped (s.stage consumer).stored) } := by
  refine ⟨?_,kept.indexes,fun key entry found => tells_moved unfinished _ (kept.entries key entry found),held_moved kept unfinished (by simp)⟩
  intro other stored
  refine kept.logs other (stored_moved ?_ stored)
  exact id

theorem step_keeps (ids : Function.Injective fun consumer => (batches consumer).batchId) (kept : Kept gzip batches s)
    (stepped : step gzip batches s event = some t) : Kept gzip batches t := by
  cases step_turn stepped with
  | persist waits some_ => exact persist_keeps ids kept waits
  | read persisted => exact read_keeps kept persisted
  | write reads => exact write_keeps kept reads _
  | stop unfinished => exact stop_keeps kept unfinished

-- No other consumer puts the index back between the two operations of one.
def Undisturbed (batches : ι → Batch) (s : State ι γ) (event : Event ι) (_ : State ι γ) : Prop :=
  ∀ consumer lastUpdated existing, event = .write consumer lastUpdated → s.stage consumer = .read existing →
    existing = (s.bucket (batches consumer).indexKey).bind Stored.entry

def Listed (gzip : Text → γ) (batches : ι → Batch) (s : State ι γ) (consumer : ι) : Prop :=
  ∃ entry, s.bucket (batches consumer).indexKey = some (.index entry) ∧ (batches consumer).entry gzip ∈ entry.batches

theorem step_lists (listed : ∀ consumer, s.stage consumer = .indexed → Listed gzip batches s consumer)
    (stepped : step gzip batches s event = some t) (undisturbed : Undisturbed batches s event t) :
    ∀ consumer, t.stage consumer = .indexed → Listed gzip batches t consumer := by
  have before : ∀ {other consumer next}, Function.update s.stage consumer next other = .indexed → next ≠ .indexed → Listed gzip batches s other := by
    intro other consumer next done unfinished
    refine listed other ?_
    by_cases same : other = consumer
    · subst same
      exact absurd (by simpa using done) unfinished
    · simpa [Function.update_of_ne same] using done
  intro other done
  cases step_turn stepped with
  | persist waits some_ =>
    obtain ⟨entry,found,member⟩ := before done (by simp)
    exact ⟨entry,(Function.update_of_ne (logKey_apart gzip _ _).symm _ _).trans found,member⟩
  | read persisted => exact before done (by simp)
  | write reads =>
    rename_i consumer existing lastUpdated
    have current := undisturbed consumer lastUpdated existing rfl reads
    by_cases key : (batches other).indexKey = (batches consumer).indexKey
    · refine ⟨updateErrorIndex gzip (batches consumer) lastUpdated existing,by simp [key],?_⟩
      by_cases same : other = consumer
      · subst same
        cases existing <;> simp [updateErrorIndex]
      · obtain ⟨entry,found,member⟩ := listed other (by simpa [Function.update_of_ne same] using done)
        rw [← key,found] at current
        subst current
        exact List.mem_append_left _ member
    · have apart : other ≠ consumer := fun same => key (same ▸ rfl)
      obtain ⟨entry,found,member⟩ := listed other (by simpa [Function.update_of_ne apart] using done)
      exact ⟨entry,(Function.update_of_ne key _ _).trans found,member⟩
  | stop unfinished => exact before done (by simp)

omit [DecidableEq ι] in
theorem told_total (told : Told gzip batches key consumers entry) :
    total entry.metrics.bySeverity ErrorSeverity.all = entry.totalErrors ∧ total entry.metrics.byCategory ErrorCategory.all = entry.totalErrors := by
  rw [funext told.bySeverity,funext told.byCategory,told.totalErrors]
  constructor
  · exact batches_total _ (by decide) (fun severity => by cases severity <;> decide) (fun consumer => (batches consumer).messages) consumers
  · exact batches_total _ (by decide) (fun category => by cases category <;> decide) (fun consumer => (batches consumer).messages) consumers

-- However the consumers of the error queue overlap and wherever they stop, a
-- log that was put stays as it was, and the index of an hour tells of batches
-- of that hour, each once, with counts that are theirs. When no two consumers
-- of an hour overlap in its index, it tells of every batch that was put in.
theorem index_accounts (gzip : Text → γ) (batches : ι → Batch) (ids : Function.Injective fun consumer => (batches consumer).batchId)
    (events : List (Event ι)) {s : State ι γ} (ran : run (step gzip batches) opened events = some s) :
    (∀ consumer, (s.stage consumer).stored = true → s.bucket ((batches consumer).logKey gzip) = some ((batches consumer).log gzip)) ∧
      (∀ key entry, s.bucket key = some (.index entry) → Tells gzip batches s.stage key entry ∧
        total entry.metrics.bySeverity ErrorSeverity.all = entry.totalErrors ∧
          total entry.metrics.byCategory ErrorCategory.all = entry.totalErrors) ∧
        (Along (step gzip batches) (Undisturbed batches) opened events →
          ∀ consumer, s.stage consumer = .indexed → Listed gzip batches s consumer) := by
  have start : Kept gzip batches (opened : State ι γ) := by
    refine ⟨?_,?_,?_,?_⟩
    · intro _ stored
      cases stored
    · intro _ _ _ found
      cases found
    · intro _ _ found
      cases found
    · intro _ _ reads
      cases reads
  have kept := run_keeps (Kept gzip batches) (fun _ _ _ kept stepped => step_keeps ids kept stepped) start ran
  refine ⟨kept.logs,?_,?_⟩
  · intro key entry found
    obtain ⟨consumers,once,done,told⟩ := kept.entries key entry found
    exact ⟨⟨consumers,once,done,told⟩,told_total told⟩
  · intro alone
    refine along_keeps (fun s => ∀ consumer, s.stage consumer = .indexed → Listed gzip batches s consumer)
      (fun _ _ _ listed stepped undisturbed => step_lists listed stepped undisturbed) ?_ alone ran
    intro consumer done
    cases done

end Consumers

-- Two batches of one hour, the second of which reads the index before the first
-- has put it back, or only afterwards.
def message : ErrorQueueMessage :=
  { requestId := [], timestamp := [], path := "/api".toList, method := "GET".toList, message := "boom".toList, errorDetails := [] }

def twoBatches (second : Bool) : Batch := ⟨[message],"errors".toList,⟨2025,1,15,14,0,0,0⟩,0,[if second then 'b' else 'a']⟩

def overlapping : List (Event Bool) :=
  [.persist false,.persist true,.read false,.read true,.write false ⟨2025,1,15,14,0,0,0⟩,.write true ⟨2025,1,15,14,0,0,0⟩]

def inTurn : List (Event Bool) :=
  [.persist false,.persist true,.read false,.write false ⟨2025,1,15,14,0,0,0⟩,.read true,.write true ⟨2025,1,15,14,0,0,0⟩]

theorem twoBatches_apart : Function.Injective fun second => (twoBatches second).batchId := by
  intro one two same
  have uuids := (mark_unique (minus_decimal _) (minus_decimal _) same).2
  cases one <;> cases two <;> simp_all [twoBatches]

theorem twoBatches_account :
    (∃ s, run (step id twoBatches) opened overlapping = some s ∧
      (∀ consumer, (s.stage consumer).stored = true → s.bucket ((twoBatches consumer).logKey id) = some ((twoBatches consumer).log id)) ∧
        ∀ key entry, s.bucket key = some (.index entry) → Tells id twoBatches s.stage key entry) ∧
      ∃ s, run (step id twoBatches) opened inTurn = some s ∧ ∀ second, Listed id twoBatches s second := by
  have apart : Along (step id twoBatches) (Undisturbed twoBatches) opened inTurn := by
    refine ⟨_,rfl,?_,_,rfl,?_,_,rfl,?_,_,rfl,?_,_,rfl,?_,_,rfl,?_,trivial⟩
    all_goals
      intro consumer lastUpdated existing writes reads
      cases writes
    · cases reads
      rfl
    · cases reads
      rfl
  obtain ⟨logs,tells,-⟩ := index_accounts id twoBatches twoBatches_apart overlapping rfl
  obtain ⟨-,-,listed⟩ := index_accounts id twoBatches twoBatches_apart inTurn rfl
  exact ⟨⟨_,rfl,logs,fun key entry found => (tells key entry found).1⟩,_,rfl,fun second => listed apart second (by cases second <;> rfl)⟩

end AdblockCompiler.ErrorQueue
