import AdblockCompiler.JsText

-- The queue statistics that updateQueueStats keeps. Times are milliseconds; a
-- timestamp is kept as the time its ISO text spells, and the texts compare as
-- the times do.
namespace AdblockCompiler.Queue
open JsText

inductive JobStatus where
  | completed | failed | cancelled
  deriving DecidableEq, Repr

structure JobHistoryEntry where
  requestId : Text
  configName : Text
  status : JobStatus
  duration : Nat
  timestamp : Nat
  error : Option Text
  ruleCount : Option Nat
  cacheKey : Option Text
  deriving DecidableEq, Repr

structure DepthHistoryEntry where
  timestamp : Nat
  pending : Nat
  deriving DecidableEq, Repr

structure QueueStats where
  pending : Nat
  completed : Nat
  failed : Nat
  cancelled : Nat
  totalProcessingTime : Nat
  averageProcessingTime : Nat
  processingRate : Nat
  queueLag : Nat
  lastUpdate : Nat
  history : List JobHistoryEntry
  depthHistory : List DepthHistoryEntry
  deriving DecidableEq, Repr

def createEmptyQueueStats (now : Nat) : QueueStats := ⟨0,0,0,0,0,0,0,0,now,[],[]⟩

structure JobInfo where
  requestId : Option Text
  configName : Option Text
  error : Option Text
  ruleCount : Option Nat
  cacheKey : Option Text
  deriving DecidableEq, Repr

inductive UpdateType where
  | enqueued | completed | failed | cancelled
  deriving DecidableEq, Repr

-- The arguments of updateQueueStats. A count that is no positive integer is
-- taken for one.
structure Update where
  type : UpdateType
  processingTime : Option Nat
  count : Nat
  jobInfo : Option JobInfo
  deriving DecidableEq, Repr

def Update.counted (update : Update) : Nat := if update.count = 0 then 1 else update.count

-- Math.round of a quotient. The quotient is taken exactly, where the source
-- has a double.
def roundedQuotient (a b : Nat) : Nat := (2*a+b)/(2*b)

def historyLimit : Nat := 50
def depthLimit : Nat := 100

def orElse (value : Option Text) (fallback : Text) : Text :=
  match value with
  | none | some [] => fallback
  | some text => text

-- The entry an update adds to the history: none without a request id.
def Update.entry (update : Update) (now : Nat) : Option JobHistoryEntry :=
  match update.jobInfo with
  | none => none
  | some info =>
    match info.requestId with
    | none | some [] => none
    | some requestId =>
      let configName := orElse info.configName "Unknown".toList
      let duration := update.processingTime.getD 0
      match update.type with
      | .enqueued => none
      | .completed => some ⟨requestId,configName,.completed,duration,now,none,info.ruleCount,info.cacheKey⟩
      | .failed => some ⟨requestId,configName,.failed,duration,now,info.error,none,none⟩
      | .cancelled => some ⟨requestId,configName,.cancelled,0,now,none,none,none⟩

def QueueStats.remember (stats : QueueStats) (entry : Option JobHistoryEntry) : QueueStats :=
  match entry with
  | none => stats
  | some entry => { stats with history := (entry :: stats.history).take historyLimit }

def QueueStats.count (stats : QueueStats) (update : Update) (now : Nat) : QueueStats :=
  match update.type with
  | .enqueued =>
    let pending := stats.pending+update.counted
    let depths := stats.depthHistory ++ [⟨now,pending⟩]
    { stats with
      pending := pending
      depthHistory := if depthLimit < depths.length then depths.tail else depths }
  | .completed =>
    let completed := stats.completed+update.counted
    let total := stats.totalProcessingTime+update.processingTime.getD 0
    { stats with
      pending := stats.pending-update.counted
      completed := completed
      totalProcessingTime := total
      averageProcessingTime := if 0 < completed then roundedQuotient total completed else stats.averageProcessingTime }
  | .failed => { stats with pending := stats.pending-update.counted, failed := stats.failed+update.counted }
  | .cancelled => { stats with pending := stats.pending-update.counted, cancelled := stats.cancelled+update.counted }

def QueueStats.rate (stats : QueueStats) (now : Nat) : QueueStats :=
  let rate := (stats.history.filter fun job => now < job.timestamp+60000).length
  let depths := (stats.depthHistory.map DepthHistoryEntry.pending).sum
  { stats with
    processingRate := rate
    queueLag :=
      if 1 < stats.depthHistory.length ∧ 0 < rate then roundedQuotient (depths*60000) (stats.depthHistory.length*rate)
      else stats.queueLag
    lastUpdate := now }

def updateQueueStats (existing : Option QueueStats) (update : Update) (now : Nat) : QueueStats :=
  let stats := existing.getD (createEmptyQueueStats now)
  ((stats.count update now).remember (update.entry now)).rate now

theorem remember_history (stats : QueueStats) (entry : Option JobHistoryEntry) :
    (stats.remember entry).history = match entry with
      | none => stats.history
      | some entry => (entry :: stats.history).take historyLimit := by
  cases entry with
  | none => rfl
  | some entry => rfl

theorem count_history (stats : QueueStats) (update : Update) (now : Nat) : (stats.count update now).history = stats.history := by
  unfold QueueStats.count
  cases update.type with
  | enqueued | completed | failed | cancelled => rfl

structure Counters where
  pending : Nat
  completed : Nat
  failed : Nat
  cancelled : Nat
  deriving DecidableEq, Repr

def QueueStats.counters (stats : QueueStats) : Counters := ⟨stats.pending,stats.completed,stats.failed,stats.cancelled⟩

def Counters.add (counters : Counters) (type : UpdateType) (n : Nat) : Counters :=
  match type with
  | .enqueued => { counters with pending := counters.pending+n }
  | .completed => { counters with pending := counters.pending-n, completed := counters.completed+n }
  | .failed => { counters with pending := counters.pending-n, failed := counters.failed+n }
  | .cancelled => { counters with pending := counters.pending-n, cancelled := counters.cancelled+n }

def Counters.final (counters : Counters) : Nat := counters.completed+counters.failed+counters.cancelled

theorem count_counters (stats : QueueStats) (update : Update) (now : Nat) :
    (stats.count update now).counters = stats.counters.add update.type update.counted := by
  unfold QueueStats.count
  cases type : update.type with
  | enqueued | completed | failed | cancelled => rfl

theorem remember_counters (stats : QueueStats) (entry : Option JobHistoryEntry) : (stats.remember entry).counters = stats.counters := by
  cases entry with
  | none => rfl
  | some entry => rfl

theorem updateQueueStats_counters (existing : Option QueueStats) (update : Update) (now : Nat) :
    (updateQueueStats existing update now).counters =
      (existing.getD (createEmptyQueueStats now)).counters.add update.type update.counted := by
  have rated (stats : QueueStats) : (stats.rate now).counters = stats.counters := rfl
  rw [updateQueueStats,rated,remember_counters,count_counters]

theorem updateQueueStats_history (existing : Option QueueStats) (update : Update) (now : Nat) :
    (updateQueueStats existing update now).history = match update.entry now with
      | none => (existing.getD (createEmptyQueueStats now)).history
      | some entry => (entry :: (existing.getD (createEmptyQueueStats now)).history).take historyLimit := by
  have rated (stats : QueueStats) : (stats.rate now).history = stats.history := rfl
  rw [updateQueueStats,rated,remember_history,count_history]

end AdblockCompiler.Queue
