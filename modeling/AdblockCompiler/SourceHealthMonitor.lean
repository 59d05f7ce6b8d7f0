import AdblockCompiler.Schedules
import AdblockCompiler.StorageAdapters

-- The health of a source, summed up again at each attempt from the metrics that
-- are stored.
namespace AdblockCompiler.SourceHealthMonitor
open JsText Schedules KeyedRows StorageAdapters SourceRecords

def healthKey (source : Text) : List Text := ["health".toList,"sources".toList,source]

def defaultMetrics (source : Text) : SourceHealthMetrics :=
  ⟨source,.Unknown,0,0,0,0,0,none,none,none,[],none,false,0⟩

-- 0.95 and 0.80 as fractions.
def calculateHealthStatus (successRate : Rat) (consecutiveFailures : Nat) : HealthStatus :=
  if consecutiveFailures ≥ 3 then .Unhealthy
  else if consecutiveFailures > 0 then .Degraded
  else if successRate ≥ 95/100 then .Healthy
  else if successRate ≥ 80/100 then .Degraded
  else .Unhealthy

-- The loop over recentAttempts, left at the first success.
def countFailures : List SourceAttempt → Nat
  | [] => 0
  | attempt :: rest => if attempt.success then 0 else countFailures rest+1

def averageOf (durations : List Int) : Rat := durations.sum / durations.length

def averageRuleCountOf (recentAttempts : List SourceAttempt) : Option Rat :=
  let counts := (recentAttempts.filter fun attempt => attempt.success && attempt.ruleCount.any (· ≠ 0)).filterMap (·.ruleCount)
  if counts.length > 0 then some (counts.sum / counts.length) else none

-- recordAttempt between its get and its set.
def nextMetrics (maxRecentAttempts : Nat) (source : Text) (metrics : SourceHealthMetrics) (attempt : SourceAttempt) : SourceHealthMetrics :=
  let recentAttempts := (attempt :: metrics.recentAttempts).take maxRecentAttempts
  let totalAttempts := metrics.totalAttempts+1
  let successfulAttempts := metrics.successfulAttempts + if attempt.success then 1 else 0
  let failedAttempts := metrics.failedAttempts + if attempt.success then 0 else 1
  let successRate : Rat := successfulAttempts / totalAttempts
  let consecutiveFailures := countFailures recentAttempts
  { source := source
    status := calculateHealthStatus successRate consecutiveFailures
    totalAttempts := totalAttempts
    successfulAttempts := successfulAttempts
    failedAttempts := failedAttempts
    successRate := successRate
    averageDuration := averageOf (recentAttempts.map (·.duration))
    lastAttempt := some attempt.timestamp
    lastSuccess := if attempt.success then some attempt.timestamp else metrics.lastSuccess
    lastFailure := if !attempt.success then some attempt.timestamp else metrics.lastFailure
    recentAttempts := recentAttempts
    averageRuleCount := averageRuleCountOf recentAttempts
    isCurrentlyFailing := !attempt.success
    consecutiveFailures := consecutiveFailures }

section Storage

variable (adapter : Adapter) (db : Database SourceRecord) (now : Int)

def getHealthMetrics (source : Text) : Database SourceRecord × SourceHealthMetrics :=
  let (db,entry) := adapter.get db now (healthKey source)
  (db,(entry.bind fun entry => entry.data.asMetrics).getD (defaultMetrics source))

def storeMetrics (source : Text) (metrics : SourceHealthMetrics) : Database SourceRecord :=
  (adapter.set db now (healthKey source) (.metrics metrics) none).1

def recordAttempt (maxRecentAttempts : Nat) (source : Text) (attempt : SourceAttempt) : Database SourceRecord :=
  let (db,metrics) := getHealthMetrics adapter db now source
  storeMetrics adapter db now source (nextMetrics maxRecentAttempts source metrics attempt)

end Storage

-- Storage that keeps what is set without a TTL.
def Keeps (adapter : Adapter) : Prop := ∀ now, adapter.expiry now none = none

theorem hyperdrive_keeps (prisma : PrismaClient) (config : HyperdriveStorageConfig) : Keeps (.hyperdrive prisma config) := fun _ => rfl

theorem d1_keeps (prisma : PrismaClient) (config : D1StorageConfig) : Keeps (.d1 prisma config) ↔ config.defaultTtlMs ≤ 0 := by
  constructor
  · intro keeps
    by_contra positive
    have shown : ¬(config.defaultTtlMs = 0 ∨ config.defaultTtlMs ≤ 0) := by omega
    have never := keeps 0
    simp [Adapter.expiry,D1StorageAdapter.computeExpiry,shown] at never
  · intro none now
    simp [Adapter.expiry,D1StorageAdapter.computeExpiry,none]

-- The metrics of a source as they stand in a database.
def stored (db : Database SourceRecord) (source : Text) : SourceHealthMetrics :=
  ((db.storageEntry.find (serializeKey (healthKey source))).bind fun row => row.data.asMetrics).getD (defaultMetrics source)

def Lasting (db : Database SourceRecord) (source : Text) : Prop :=
  ∀ row, db.storageEntry.find (serializeKey (healthKey source)) = some row → row.expiresAt = none

theorem lasting_empty (source : Text) : Lasting .empty source := by
  intro row found
  change none = some row at found
  cases found

theorem healthKey_apart (differ : one ≠ other) : serializeKey (healthKey one) ≠ serializeKey (healthKey other) := by
  rw [healthKey,healthKey,serialize_three,serialize_three]
  exact fun same => differ (List.append_cancel_left same)

theorem get_stored (adapter : Adapter) (lasting : Lasting db source) (now : Int) :
    getHealthMetrics adapter db now source = (db,stored db source) := by
  rw [getHealthMetrics,get_exact,readEntry,stored]
  cases found : db.storageEntry.find (serializeKey (healthKey source)) with
  | none => rfl
  | some row =>
    have fresh : expired now row.expiresAt = false := by
      rw [lasting row found]
      rfl
    simp [fresh,entry_data]

theorem find_metrics (adapter : Adapter) (db : Database SourceRecord) (now : Int) (source : Text) (metrics : SourceHealthMetrics) :
    ∃ row, (storeMetrics adapter db now source metrics).storageEntry.find (serializeKey (healthKey source)) = some row ∧
      row.data = .metrics metrics ∧ row.expiresAt = adapter.expiry now none := by
  rw [storeMetrics,set_exact]
  simp only [find_store,if_true]
  refine ⟨_,rfl,?_⟩
  cases db.storageEntry.find (serializeKey (healthKey source)) <;> exact ⟨rfl,rfl⟩

theorem stored_store (adapter : Adapter) (db : Database SourceRecord) (now : Int) (source : Text) (metrics : SourceHealthMetrics) :
    stored (storeMetrics adapter db now source metrics) source = metrics := by
  obtain ⟨row,found,holds,-⟩ := find_metrics adapter db now source metrics
  rw [stored,found,Option.bind_some,holds]
  rfl

theorem lasting_store (keeps : Keeps adapter) (db : Database SourceRecord) (now : Int) (source : Text) (metrics : SourceHealthMetrics) :
    Lasting (storeMetrics adapter db now source metrics) source := by
  obtain ⟨row,found,-,endless⟩ := find_metrics adapter db now source metrics
  intro other same
  obtain rfl := Option.some.inj (found.symm.trans same)
  exact endless.trans (keeps now)

theorem store_other (adapter : Adapter) (db : Database SourceRecord) (now : Int) (metrics : SourceHealthMetrics) (differ : one ≠ other) :
    (storeMetrics adapter db now one metrics).storageEntry.find (serializeKey (healthKey other)) =
      db.storageEntry.find (serializeKey (healthKey other)) := by
  rw [storeMetrics,set_exact,find_store,if_neg (healthKey_apart differ.symm)]

structure Call where
  source : Text
  attempt : SourceAttempt

-- Calls one after another, each at the time of its attempt.
def recordAll (adapter : Adapter) (maxRecentAttempts : Nat) (db : Database SourceRecord) (calls : List Call) : Database SourceRecord :=
  calls.foldl (fun db call => recordAttempt adapter db call.attempt.timestamp maxRecentAttempts call.source call.attempt) db

def historyOf (calls : List Call) (source : Text) : List SourceAttempt :=
  (calls.filter fun call => call.source = source).map (·.attempt)

theorem record_own (keeps : Keeps adapter) (lasting : Lasting db source) (now : Int) (m : Nat) (attempt : SourceAttempt) :
    stored (recordAttempt adapter db now m source attempt) source = nextMetrics m source (stored db source) attempt ∧
      Lasting (recordAttempt adapter db now m source attempt) source := by
  rw [recordAttempt,get_stored adapter lasting]
  exact ⟨stored_store _ _ _ _ _,lasting_store keeps _ _ _ _⟩

theorem record_other (adapter : Adapter) (db : Database SourceRecord) (now : Int) (m : Nat) (attempt : SourceAttempt) (differ : one ≠ other) :
    (recordAttempt adapter db now m one attempt).storageEntry.find (serializeKey (healthKey other)) =
      db.storageEntry.find (serializeKey (healthKey other)) := by
  rw [recordAttempt,getHealthMetrics,get_exact]
  dsimp only
  rw [store_other adapter _ now _ differ,find_read,if_neg (healthKey_apart differ.symm)]

theorem recorded (keeps : Keeps adapter) (lasting : Lasting db source) (m : Nat) (calls : List Call) :
    stored (recordAll adapter m db calls) source = (historyOf calls source).foldl (nextMetrics m source) (stored db source) ∧
      Lasting (recordAll adapter m db calls) source := by
  induction calls generalizing db with
  | nil => exact ⟨rfl,lasting⟩
  | cons call calls ih =>
    rw [recordAll,List.foldl_cons,← recordAll]
    by_cases mine : call.source = source
    · obtain ⟨here,after⟩ := record_own keeps (mine ▸ lasting) call.attempt.timestamp m call.attempt
      rw [mine] at here after ⊢
      obtain ⟨rest,later⟩ := ih after
      refine ⟨?_,later⟩
      have own : historyOf (call :: calls) source = call.attempt :: historyOf calls source := by simp [historyOf,mine]
      rw [rest,here,own,List.foldl_cons]
    · have untouched := record_other adapter db call.attempt.timestamp m call.attempt mine
      have after : Lasting (recordAttempt adapter db call.attempt.timestamp m call.source call.attempt) source := by
        intro row found
        rw [untouched] at found
        exact lasting row found
      obtain ⟨rest,later⟩ := ih after
      refine ⟨?_,later⟩
      have own : historyOf (call :: calls) source = historyOf calls source := by simp [historyOf,mine]
      rw [rest,own,stored,untouched,stored]

-- The failures since the last success.
def trailing (history : List SourceAttempt) : Nat := (history.reverse.takeWhile fun attempt => !attempt.success).length

def lastThreeFailed (history : List SourceAttempt) : Bool := (history.reverse.take 3).map (·.success) = [false,false,false]

def succeeded (history : List SourceAttempt) : Nat := history.countP (·.success)

-- What the metrics say of a source's whole history, oldest attempt first.
structure Summarises (m : Nat) (history : List SourceAttempt) (metrics : SourceHealthMetrics) : Prop where
  total : metrics.totalAttempts = history.length
  parts : metrics.totalAttempts = metrics.successfulAttempts+metrics.failedAttempts
  successes : metrics.successfulAttempts = succeeded history
  recent : metrics.recentAttempts = history.reverse.take m
  failures : metrics.consecutiveFailures = min m (trailing history)
  lastSuccess : metrics.lastSuccess = (history.reverse.find? (·.success)).map (·.timestamp)
  lastFailure : metrics.lastFailure = (history.reverse.find? fun attempt => !attempt.success).map (·.timestamp)
  status : history ≠ [] → (metrics.status = .Unhealthy ↔ lastThreeFailed history = true ∨
    history.getLast?.any (·.success) = true ∧ (succeeded history / history.length : Rat) < 80/100)

theorem countFailures_exact (attempts : List SourceAttempt) : countFailures attempts = (attempts.takeWhile fun attempt => !attempt.success).length := by
  induction attempts with
  | nil => rfl
  | cons attempt rest ih =>
    rw [countFailures,List.takeWhile_cons]
    cases attempt.success with
    | true => rfl
    | false => simpa using ih

theorem countFailures_take (m : Nat) (attempts : List SourceAttempt) : countFailures (attempts.take m) = min m (countFailures attempts) := by
  induction attempts generalizing m with
  | nil => simp [countFailures]
  | cons attempt rest ih =>
    cases m with
    | zero => simp [countFailures]
    | succ m =>
      rw [List.take_succ_cons,countFailures,countFailures,ih]
      split <;> omega

theorem lastThree_exact (history : List SourceAttempt) : lastThreeFailed history = true ↔ 3 ≤ trailing history := by
  unfold lastThreeFailed trailing
  rw [decide_eq_true_iff,← countFailures_exact]
  cases history.reverse with
  | nil => simp [countFailures]
  | cons one rest =>
    cases rest with
    | nil => cases success : one.success <;> simp [countFailures,success]
    | cons two rest =>
      cases rest with
      | nil => cases first : one.success <;> cases second : two.success <;> simp [countFailures,first,second]
      | cons three rest =>
        cases first : one.success <;> cases second : two.success <;> cases third : three.success <;>
          simp [countFailures,first,second,third]

theorem status_exact (rate : Rat) (failures : Nat) :
    calculateHealthStatus rate failures = .Unhealthy ↔ 3 ≤ failures ∨ failures = 0 ∧ rate < 80/100 := by
  unfold calculateHealthStatus
  split
  · rename_i three
    exact iff_of_true rfl (.inl three)
  · rename_i fewer
    split
    · exact iff_of_false nofun (by omega)
    · rename_i none
      have zero : failures = 0 := by omega
      split
      · rename_i healthy
        refine iff_of_false nofun ?_
        have enough : (80/100 : Rat) ≤ rate := le_trans (by norm_num) healthy
        simp [fewer,not_lt.mpr enough]
      · split
        · rename_i enough
          refine iff_of_false nofun ?_
          simp [fewer,not_lt.mpr enough]
        · rename_i low
          exact iff_of_true rfl (.inr ⟨zero,not_le.mp low⟩)

theorem trailing_append (history : List SourceAttempt) (attempt : SourceAttempt) :
    trailing (history ++ [attempt]) = countFailures (attempt :: history.reverse) := by
  rw [countFailures_exact,trailing,List.reverse_append,List.reverse_singleton,List.singleton_append]

theorem recent_next (history : List SourceAttempt) (attempt : SourceAttempt) (m : Nat) :
    (attempt :: history.reverse.take m).take m = (history ++ [attempt]).reverse.take m := by
  rw [List.reverse_append,List.reverse_singleton,List.singleton_append]
  cases m with
  | zero => rfl
  | succ m => rw [List.take_succ_cons,List.take_succ_cons,List.take_take,Nat.min_eq_left (Nat.le_succ m)]

theorem summarises_next (enough : 3 ≤ m) (summary : Summarises m history metrics) (source : Text) (attempt : SourceAttempt) :
    Summarises m (history ++ [attempt]) (nextMetrics m source metrics attempt) := by
  have successes : metrics.successfulAttempts + (if attempt.success then 1 else 0) = succeeded (history ++ [attempt]) := by
    rw [summary.successes,succeeded,succeeded,List.countP_append,List.countP_singleton]
  have total : metrics.totalAttempts+1 = (history ++ [attempt]).length := by
    rw [summary.total,List.length_append,List.length_singleton]
  have recent : (attempt :: metrics.recentAttempts).take m = (history ++ [attempt]).reverse.take m := by
    rw [summary.recent,recent_next]
  have failures : countFailures ((attempt :: metrics.recentAttempts).take m) = min m (trailing (history ++ [attempt])) := by
    rw [recent,countFailures_take,trailing,countFailures_exact]
  have reversed : (history ++ [attempt]).reverse = attempt :: history.reverse := by
    rw [List.reverse_append,List.reverse_singleton,List.singleton_append]
  constructor
  · exact total
  · have parts := summary.parts
    change metrics.totalAttempts+1 = metrics.successfulAttempts + (if attempt.success then 1 else 0) + (metrics.failedAttempts + if attempt.success then 0 else 1)
    split <;> omega
  · exact successes
  · exact recent
  · exact failures
  · rw [reversed,List.find?_cons,nextMetrics]
    cases attempt.success with
    | true => rfl
    | false => exact summary.lastSuccess
  · rw [reversed,List.find?_cons,nextMetrics]
    cases attempt.success with
    | true => exact summary.lastFailure
    | false => rfl
  · intro _
    have rate : ((metrics.successfulAttempts + (if attempt.success then 1 else 0) : Nat) : Rat) / ((metrics.totalAttempts+1 : Nat) : Rat) =
        succeeded (history ++ [attempt]) / (history ++ [attempt]).length := by rw [successes,total]
    have unbroken : min m (trailing (history ++ [attempt])) = 0 ↔ (history ++ [attempt]).getLast?.any (·.success) = true := by
      rw [trailing_append,countFailures,List.getLast?_concat,Option.any_some]
      cases attempt.success with
      | true => simp
      | false => simp; omega
    have three : 3 ≤ min m (trailing (history ++ [attempt])) ↔ 3 ≤ trailing (history ++ [attempt]) := by omega
    change calculateHealthStatus _ _ = _ ↔ _
    rw [status_exact,failures,three,unbroken,rate,lastThree_exact]

theorem summarises_all (enough : 3 ≤ m) (source : Text) (history : List SourceAttempt) :
    Summarises m history (history.foldl (nextMetrics m source) (defaultMetrics source)) := by
  induction history using List.reverseRecOn with
  | nil =>
    have none : Summarises m [] (defaultMetrics source) := ⟨rfl,rfl,rfl,by simp [defaultMetrics],by simp [defaultMetrics,trailing],rfl,rfl,nofun⟩
    exact none
  | append_singleton history attempt ih =>
    rw [List.foldl_append]
    exact summarises_next enough ih source attempt

theorem history_summarised (keeps : Keeps adapter) (enough : 3 ≤ m) (calls : List Call) (source : Text)
    (unseen : db.storageEntry.find (serializeKey (healthKey source)) = none) (later : Int) :
    Summarises m (historyOf calls source) (getHealthMetrics adapter (recordAll adapter m db calls) later source).2 := by
  have fresh : Lasting db source := by
    intro row found
    rw [unseen] at found
    cases found
  have initial : stored db source = defaultMetrics source := by
    rw [stored,unseen]
    rfl
  obtain ⟨summed,lasting⟩ := recorded keeps fresh m calls
  rw [get_stored adapter lasting,summed,initial]
  exact summarises_all enough source (historyOf calls source)

def failedAt (timestamp : Int) : SourceAttempt := ⟨timestamp,false,10,some "timeout".toList,none,none⟩

def threeFailures : List Call := [⟨"a".toList,failedAt 1⟩,⟨"a".toList,failedAt 2⟩,⟨"a".toList,failedAt 3⟩]

theorem threeFailures_summarised : Summarises 3 (historyOf threeFailures "a".toList)
    (getHealthMetrics (.hyperdrive .postgres .default) (recordAll (.hyperdrive .postgres .default) 3 .empty threeFailures) 9 "a".toList).2 :=
  history_summarised (hyperdrive_keeps .postgres .default) (Nat.le_refl 3) threeFailures "a".toList rfl 9

-- Calls for one source that overlap: each begins, reads, and writes.
inductive Recording where
  | begun (attempt : SourceAttempt)
  | fetched (attempt : SourceAttempt) (metrics : SourceHealthMetrics)
  | resolved
  deriving DecidableEq

-- written is history: the attempts in the order of their writes, newest first.
structure State where
  db : Database SourceRecord
  now : Int
  calls : List Recording
  written : List SourceAttempt

inductive Event where
  | start (success : Bool) (duration : Int) (error : Option Text) (ruleCount : Option Nat) (etag : Option Text)
  | read (i : Nat)
  | write (i : Nat)
  | advance (ms : Nat)

section Overlapping

variable (adapter : Adapter) (m : Nat) (source : Text)

def step (s : State) : Event → Option State
  | .start success duration error ruleCount etag =>
    some { s with calls := s.calls ++ [.begun ⟨s.now,success,duration,error,ruleCount,etag⟩] }
  | .read i =>
    match s.calls[i]? with
    | some (.begun attempt) =>
      let (db,metrics) := getHealthMetrics adapter s.db s.now source
      some { s with db := db, calls := s.calls.set i (.fetched attempt metrics) }
    | _ => none
  | .write i =>
    match s.calls[i]? with
    | some (.fetched attempt metrics) =>
      some { s with
        db := storeMetrics adapter s.db s.now source (nextMetrics m source metrics attempt)
        calls := s.calls.set i .resolved
        written := attempt :: s.written }
    | _ => none
  | .advance ms => some { s with now := s.now+ms }

def launched (db : Database SourceRecord) (now : Int) : State := ⟨db,now,[],[]⟩

-- A write replaces the metrics that its call has read.
def upToDate (s : State) : Event → Bool
  | .write i =>
    match s.calls[i]? with
    | some (.fetched _ metrics) => stored s.db source = metrics
    | _ => true
  | _ => true

-- Every call counted, and the newest attempts remembered once each.
structure Counted (before : SourceHealthMetrics) (s : State) : Prop where
  total : (stored s.db source).totalAttempts = before.totalAttempts+s.calls.length
  recent : s.written ≠ [] → (stored s.db source).recentAttempts = (s.written ++ before.recentAttempts).take m

end Overlapping

-- How a step changes what is stored, the calls and the attempts written.
inductive Change (m : Nat) (source : Text) (s : State) (fresh : Bool) (t : State) : Prop where
  | kept (current : fresh = true) (same : stored t.db source = stored s.db source) (log : t.written = s.written) (calls : t.calls = s.calls)
  | started (current : fresh = true) (same : stored t.db source = stored s.db source) (log : t.written = s.written) (attempt : SourceAttempt)
      (calls : t.calls = s.calls ++ [.begun attempt])
  | read (current : fresh = true) (same : stored t.db source = stored s.db source) (log : t.written = s.written) (i : Nat) (attempt : SourceAttempt)
      (found : s.calls[i]? = some (.begun attempt)) (calls : t.calls = s.calls.set i (.fetched attempt (stored s.db source)))
  | wrote (i : Nat) (attempt : SourceAttempt) (metrics : SourceHealthMetrics) (found : s.calls[i]? = some (.fetched attempt metrics))
      (current : fresh = decide (stored s.db source = metrics)) (new : stored t.db source = nextMetrics m source metrics attempt)
      (log : t.written = attempt :: s.written) (calls : t.calls = s.calls.set i .resolved)

theorem step_change (keeps : Keeps adapter) (lasting : Lasting s.db source) (stepped : step adapter m source s event = some t) :
    Change m source s (upToDate source s event) t ∧ Lasting t.db source := by
  cases event with
  | start success duration error ruleCount etag =>
    cases stepped
    exact ⟨.started rfl rfl rfl _ rfl,lasting⟩
  | read i =>
    simp only [step] at stepped
    split at stepped
    · rename_i attempt found
      rw [get_stored adapter lasting] at stepped
      cases stepped
      exact ⟨.read rfl rfl rfl i attempt found rfl,lasting⟩
    · cases stepped
  | write i =>
    simp only [step] at stepped
    split at stepped
    · rename_i attempt metrics found
      cases stepped
      refine ⟨.wrote i attempt metrics found ?_ (stored_store _ _ _ _ _) rfl rfl,lasting_store keeps _ _ _ _⟩
      simp only [upToDate,found]
    · cases stepped
  | advance ms =>
    cases stepped
    exact ⟨.kept rfl rfl rfl rfl,lasting⟩

-- Nothing lost so far: every metrics a call holds is what is stored, or older.
structure Sound (m : Nat) (source : Text) (before : SourceHealthMetrics) (s : State) : Prop where
  total : (stored s.db source).totalAttempts = before.totalAttempts+s.written.length
  recent : s.written ≠ [] → (stored s.db source).recentAttempts = (s.written ++ before.recentAttempts).take m
  untouched : s.written = [] → stored s.db source = before
  held : ∀ (i : Nat) attempt metrics, s.calls[i]? = some (.fetched attempt metrics) →
    metrics = stored s.db source ∨ metrics.totalAttempts < (stored s.db source).totalAttempts

-- Once a write was lost the total stays behind, whatever is written after it.
structure Lost (source : Text) (before : SourceHealthMetrics) (s : State) : Prop where
  fewer : (stored s.db source).totalAttempts < before.totalAttempts+s.written.length
  held : ∀ (i : Nat) attempt metrics, s.calls[i]? = some (.fetched attempt metrics) →
    metrics.totalAttempts < before.totalAttempts+s.written.length

theorem nextMetrics_total (m : Nat) (source : Text) (metrics : SourceHealthMetrics) (attempt : SourceAttempt) :
    (nextMetrics m source metrics attempt).totalAttempts = metrics.totalAttempts+1 := rfl

theorem take_cons_take (item : α) (items : List α) (m : Nat) : (item :: items.take m).take m = (item :: items).take m := by
  cases m with
  | zero => rfl
  | succ m => rw [List.take_succ_cons,List.take_succ_cons,List.take_take,Nat.min_eq_left (Nat.le_succ m)]

-- A call never holds anything but what was stored when it read.
theorem held_change {P : SourceHealthMetrics → Prop} (change : Change m source s fresh t)
    (held : ∀ (i : Nat) attempt metrics, s.calls[i]? = some (.fetched attempt metrics) → P metrics) (own : P (stored s.db source)) :
    ∀ (i : Nat) attempt metrics, t.calls[i]? = some (.fetched attempt metrics) → P metrics := by
  intro j other metrics there
  cases change with
  | kept _ _ _ calls =>
    rw [calls] at there
    exact held j other metrics there
  | started _ _ _ attempt calls =>
    rw [calls] at there
    rcases found_append there with old | ⟨-,new⟩
    · exact held j other metrics old
    · cases new
  | read _ _ _ i attempt found calls =>
    rw [calls] at there
    rcases found_set there with ⟨-,new⟩ | ⟨-,old⟩
    · cases new
      exact own
    · exact held j other metrics old
  | wrote i attempt older found _ _ _ calls =>
    rw [calls] at there
    rcases found_set there with ⟨-,done⟩ | ⟨-,old⟩
    · cases done
    · exact held j other metrics old

-- Where nothing is written, only what the calls hold has to be looked at.
theorem sound_quiet {t : State} (sound : Sound m source before s) (same : stored t.db source = stored s.db source) (log : t.written = s.written)
    (held : ∀ (i : Nat) attempt metrics, t.calls[i]? = some (.fetched attempt metrics) →
      metrics = stored s.db source ∨ metrics.totalAttempts < (stored s.db source).totalAttempts) : Sound m source before t := by
  refine ⟨?_,?_,?_,?_⟩
  · rw [same,log]
    exact sound.total
  · rw [same,log]
    exact sound.recent
  · rw [same,log]
    exact sound.untouched
  · rw [same]
    exact held

theorem sound_step (sound : Sound m source before s) (change : Change m source s fresh t) (current : fresh = true) :
    Sound m source before t := by
  have held := held_change change sound.held (.inl rfl)
  cases change with
  | kept _ same log _ => exact sound_quiet sound same log held
  | started _ same log _ _ => exact sound_quiet sound same log held
  | read _ same log _ _ _ _ => exact sound_quiet sound same log held
  | wrote i attempt metrics found same new log calls =>
    have mine : stored s.db source = metrics := of_decide_eq_true (same.symm.trans current)
    have grown : (stored t.db source).totalAttempts = (stored s.db source).totalAttempts+1 := by
      rw [new,mine,nextMetrics_total]
    refine ⟨?_,?_,?_,?_⟩
    · rw [grown,sound.total,log,List.length_cons]
      omega
    · intro _
      have latest : (stored t.db source).recentAttempts = (attempt :: (stored s.db source).recentAttempts).take m := by
        rw [new,mine]
        rfl
      rw [latest,log,List.cons_append]
      cases earlier : s.written with
      | nil => rw [sound.untouched earlier,List.nil_append]
      | cons one rest =>
        have some : s.written ≠ [] := by simp [earlier]
        rw [sound.recent some,← earlier,take_cons_take]
    · intro none
      rw [log] at none
      cases none
    · intro j other older there
      rw [grown]
      rcases held j other older there with rfl | less
      · exact .inr (Nat.lt_succ_self _)
      · exact .inr (Nat.lt_succ_of_lt less)

theorem sound_bound {s : State} {i : Nat} {metrics : SourceHealthMetrics} (sound : Sound m source before s)
    (found : s.calls[i]? = some (.fetched attempt metrics)) :
    metrics.totalAttempts ≤ before.totalAttempts+s.written.length := by
  rw [← sound.total]
  rcases sound.held i attempt metrics found with rfl | less
  · exact Nat.le_refl _
  · exact Nat.le_of_lt less

theorem lost_write (sound : Sound m source before s) (change : Change m source s fresh t) (stale : fresh = false) :
    Lost source before t := by
  have bounded := held_change (P := fun metrics => metrics.totalAttempts ≤ before.totalAttempts+s.written.length) change
    (fun _ _ _ found => sound_bound sound found) (Nat.le_of_eq sound.total)
  cases change with
  | kept current _ _ _ => cases current.symm.trans stale
  | started current _ _ _ _ => cases current.symm.trans stale
  | read current _ _ _ _ _ _ => cases current.symm.trans stale
  | wrote i attempt metrics found same new log calls =>
    have differ : stored s.db source ≠ metrics := of_decide_eq_false (same.symm.trans stale)
    have less : metrics.totalAttempts < before.totalAttempts+s.written.length := by
      rw [← sound.total]
      rcases sound.held i attempt metrics found with rfl | less
      · exact absurd rfl differ
      · exact less
    refine ⟨?_,?_⟩
    · rw [new,nextMetrics_total,log,List.length_cons]
      omega
    · intro j other older there
      rw [log,List.length_cons]
      exact Nat.lt_succ_of_le (bounded j other older there)

theorem lost_quiet {t : State} (lost : Lost source before s) (same : stored t.db source = stored s.db source) (log : t.written = s.written)
    (held : ∀ (i : Nat) attempt metrics, t.calls[i]? = some (.fetched attempt metrics) →
      metrics.totalAttempts < before.totalAttempts+s.written.length) : Lost source before t := by
  refine ⟨?_,?_⟩
  · rw [same,log]
    exact lost.fewer
  · rw [log]
    exact held

theorem lost_step (lost : Lost source before s) (change : Change m source s fresh t) : Lost source before t := by
  have held := held_change (P := fun metrics => metrics.totalAttempts < before.totalAttempts+s.written.length) change lost.held lost.fewer
  cases change with
  | kept _ same log _ => exact lost_quiet lost same log held
  | started _ same log _ _ => exact lost_quiet lost same log held
  | read _ same log _ _ _ _ => exact lost_quiet lost same log held
  | wrote i attempt metrics found same new log calls =>
    have less := lost.held i attempt metrics found
    refine ⟨?_,?_⟩
    · rw [new,nextMetrics_total,log,List.length_cons]
      omega
    · intro j other older there
      rw [log,List.length_cons]
      exact Nat.lt_succ_of_lt (held j other older there)

-- Each write is of one call.
def Accounted (s : State) : Prop := s.written.length = s.calls.countP (· = .resolved)

theorem accounted_step (accounted : Accounted s) (change : Change m source s fresh t) : Accounted t := by
  unfold Accounted at *
  cases change with
  | kept _ _ log calls => rw [log,calls,accounted]
  | started _ _ log attempt calls =>
    rw [log,calls,List.countP_append,accounted]
    rfl
  | read _ _ log i attempt found calls =>
    obtain ⟨place,here⟩ := List.getElem?_eq_some_iff.mp found
    rw [log,calls,List.countP_set place,here,accounted]
    simp
  | wrote i attempt metrics found _ _ log calls =>
    obtain ⟨place,here⟩ := List.getElem?_eq_some_iff.mp found
    rw [log,calls,List.countP_set place,here,List.length_cons,accounted]
    simp

theorem resolved_length (accounted : Accounted s) (resolved : ∀ call ∈ s.calls, call = .resolved) : s.written.length = s.calls.length := by
  rw [accounted,List.countP_eq_length]
  exact fun call member => decide_eq_true (resolved call member)

theorem lost_run (keeps : Keeps adapter) (lasting : Lasting s.db source) (lost : Lost source before s)
    (ran : run (step adapter m source) s events = some t) : Lost source before t := by
  refine (run_keeps (fun s => Lost source before s ∧ Lasting s.db source) ?_ ⟨lost,lasting⟩ ran).1
  intro s event t invariant stepped
  obtain ⟨change,later⟩ := step_change keeps invariant.2 stepped
  exact ⟨lost_step invariant.1 change,later⟩

theorem sound_or_lost (keeps : Keeps adapter) (lasting : Lasting s.db source) (sound : Sound m source before s)
    (ran : run (step adapter m source) s events = some t) :
    (Along (step adapter m source) (fun s event _ => upToDate source s event = true) s events ∧ Sound m source before t) ∨
      (¬Along (step adapter m source) (fun s event _ => upToDate source s event = true) s events ∧ Lost source before t) := by
  induction events generalizing s with
  | nil =>
    obtain rfl := Option.some.inj ran
    exact .inl ⟨trivial,sound⟩
  | cons event rest ih =>
    obtain ⟨next,stepped,after⟩ := run_cons.mp ran
    obtain ⟨change,later⟩ := step_change keeps lasting stepped
    cases current : upToDate source s event with
    | true =>
      rcases ih later (sound_step sound change current) after with ⟨along,fine⟩ | ⟨broken,lost⟩
      · exact .inl ⟨⟨next,stepped,current,along⟩,fine⟩
      · refine .inr ⟨?_,lost⟩
        rintro ⟨same,again,-,along⟩
        obtain rfl := Option.some.inj (stepped.symm.trans again)
        exact broken along
    | false =>
      refine .inr ⟨?_,?_⟩
      · rintro ⟨-,-,fresh,-⟩
        rw [current] at fresh
        cases fresh
      · exact lost_run keeps later (lost_write sound change current) after

theorem attempts_counted (keeps : Keeps adapter) (lasting : Lasting db source)
    (ran : run (step adapter m source) (launched db now) events = some t) (resolved : ∀ call ∈ t.calls, call = .resolved) :
    Counted m source (stored db source) t ↔
      Along (step adapter m source) (fun s event _ => upToDate source s event = true) (launched db now) events := by
  have begins : Sound m source (stored db source) (launched db now) := by
    refine ⟨rfl,fun some => absurd rfl some,fun _ => rfl,?_⟩
    intro i attempt metrics found
    rw [launched,List.getElem?_nil] at found
    cases found
  have accounted : Accounted t := by
    have none : Accounted (launched db now) := rfl
    refine (run_keeps (fun s => Accounted s ∧ Lasting s.db source) ?_ ⟨none,lasting⟩ ran).1
    intro s event t invariant stepped
    obtain ⟨change,later⟩ := step_change keeps invariant.2 stepped
    exact ⟨accounted_step invariant.1 change,later⟩
  have number := resolved_length accounted resolved
  rcases sound_or_lost keeps lasting begins ran with ⟨along,sound⟩ | ⟨broken,lost⟩
  · refine iff_of_true ⟨?_,sound.recent⟩ along
    rw [← number]
    exact sound.total
  · refine iff_of_false ?_ broken
    intro counted
    have fewer := lost.fewer
    rw [counted.total,number] at fewer
    exact Nat.lt_irrefl _ fewer

-- Two downloads, one after the other and at once.
def inTurn : List Event :=
  [.start true 10 none (some 5) none,.read 0,.write 0,.start false 20 (some "timeout".toList) none none,.read 1,.write 1]

def atOnce : List Event :=
  [.start true 10 none (some 5) none,.start false 20 (some "timeout".toList) none none,.read 0,.read 1,.write 0,.write 1]

theorem inTurn_counted : ∃ t, run (step (.hyperdrive .postgres .default) 10 "a".toList) (launched .empty 0) inTurn = some t ∧
    (Counted 10 "a".toList (stored .empty "a".toList) t ↔
      Along (step (.hyperdrive .postgres .default) 10 "a".toList) (fun s event _ => upToDate "a".toList s event = true) (launched .empty 0) inTurn) := by
  refine ⟨_,rfl,attempts_counted (hyperdrive_keeps .postgres .default) (lasting_empty _) rfl ?_⟩
  exact List.forall_mem_cons.mpr ⟨rfl,List.forall_mem_singleton.mpr rfl⟩

theorem atOnce_lost : ∃ t, run (step (.hyperdrive .postgres .default) 10 "a".toList) (launched .empty 0) atOnce = some t ∧
    (∀ call ∈ t.calls, call = .resolved) ∧ ¬Counted 10 "a".toList (stored .empty "a".toList) t := by
  refine ⟨_,rfl,List.forall_mem_cons.mpr ⟨rfl,List.forall_mem_singleton.mpr rfl⟩,?_⟩
  intro counted
  exact absurd counted.total (by decide)

end AdblockCompiler.SourceHealthMonitor
