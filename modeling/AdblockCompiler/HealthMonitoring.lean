import AdblockCompiler.Compress
import AdblockCompiler.KeyedRows

-- The store-results step of the health workflow, run again after an attempt that
-- failed, and analyze-results, which reads what it stores. An ISO text stands for
-- the instant it names, in milliseconds.
namespace AdblockCompiler.HealthMonitoring
open JsText KeyedRows
open Compress (inherited)

structure SourceHealthResult where
  name : Text
  url : Text
  healthy : Bool
  statusCode : Option Nat
  responseTimeMs : Option Int
  ruleCount : Option Nat
  error : Option Text
  lastChecked : Int
  deriving DecidableEq

structure SourceCheck where
  name : Text
  healthy : Bool
  responseTimeMs : Option Int

abbrev CheckRecord := Table SourceCheck.name

structure Check where
  timestamp : Int
  results : CheckRecord

structure HealthHistory where
  checks : List Check

structure Summary where
  total : Nat
  healthy : Nat
  unhealthy : Nat
  deriving DecidableEq

structure Latest where
  timestamp : Int
  runId : Text
  results : List SourceHealthResult
  summary : Summary
  deriving DecidableEq

-- lastCheckAt is none for the empty text.
structure HealthMetrics where
  totalChecks : Nat
  totalSourcesChecked : Nat
  totalHealthy : Nat
  totalUnhealthy : Nat
  alertsTriggered : Nat
  lastCheckAt : Option Int
  avgCheckDurationMs : Int
  deriving DecidableEq

structure Entry (α : Type) where
  value : α
  expirationTtl : Nat
  deriving DecidableEq

-- The three entries of KV, and the history that the run has loaded.
structure State where
  history : Option (Entry HealthHistory)
  latest : Option (Entry Latest)
  metrics : Option (Entry HealthMetrics)
  healthHistory : HealthHistory

-- What the step finds of its run: every source has been checked by then.
structure Run where
  runId : Text
  startTime : Int
  results : List SourceHealthResult
  alertsSent : Bool

def failureThreshold : Nat := 3

def load (s : State) : State := { s with healthHistory := (s.history.map (·.value)).getD ⟨[]⟩ }

-- !check.results[name].healthy: what a record inherits has no such field.
def failing (name : Text) (results : CheckRecord) : Bool :=
  match results.find name with
  | some sourceCheck => !sourceCheck.healthy
  | none => name ∈ inherited

def consecutiveFailures (healthHistory : HealthHistory) (name : Text) : Nat :=
  1+((healthHistory.checks.take (failureThreshold-1)).takeWhile fun check => failing name check.results).length

def shouldAlert (alertOnFailure : Bool) (results : List SourceHealthResult) (healthHistory : HealthHistory) : List Text :=
  if !alertOnFailure then []
  else (results.filter fun result => !result.healthy && consecutiveFailures healthHistory result.name ≥ failureThreshold).map (·.name)

-- checkRecord[result.name] = ..: this name sets the prototype and adds no property.
def assign (checkRecord : CheckRecord) (result : SourceHealthResult) : CheckRecord :=
  if result.name = "__proto__".toList then checkRecord else checkRecord.upsert ⟨result.name,result.healthy,result.responseTimeMs⟩

def Run.checkRecord (run : Run) : CheckRecord := run.results.foldl assign ⟨[],List.nodup_nil⟩

def keptChecks : Nat := 100

def remember (run : Run) (now : Int) (s : State) : State :=
  let checks := ⟨now,run.checkRecord⟩ :: s.healthHistory.checks
  { s with healthHistory := ⟨if checks.length > keptChecks then checks.take keptChecks else checks⟩ }

def Run.healthySources (run : Run) : Nat := run.results.countP (·.healthy)
def Run.unhealthySources (run : Run) : Nat := run.results.countP (!·.healthy)

def Run.latest (run : Run) (now : Int) : Latest :=
  ⟨now,run.runId,run.results,⟨run.results.length,run.healthySources,run.unhealthySources⟩⟩

def noMetrics : HealthMetrics := ⟨0,0,0,0,0,none,0⟩

-- Math.round of sum / count, taken exactly, where the source has a double.
def roundedMean (sum : Int) (count : Nat) : Int := (2*sum+count)/(2*count)

def HealthMetrics.count (metrics : HealthMetrics) (run : Run) (now : Int) : HealthMetrics :=
  let totalDuration := now-run.startTime
  let totalChecks := metrics.totalChecks+1
  { totalChecks := totalChecks
    totalSourcesChecked := metrics.totalSourcesChecked+run.results.length
    totalHealthy := metrics.totalHealthy+run.healthySources
    totalUnhealthy := metrics.totalUnhealthy+run.unhealthySources
    alertsTriggered := if run.alertsSent then metrics.alertsTriggered+1 else metrics.alertsTriggered
    lastCheckAt := some now
    avgCheckDurationMs := roundedMean (metrics.avgCheckDurationMs*(totalChecks-1)+totalDuration) totalChecks }

inductive Operation where
  | putHistory | putLatest | getMetrics | putMetrics
  deriving DecidableEq

-- Where an attempt fails, and whether KV has stored the value all the same.
structure Failure where
  operation : Operation
  stored : Bool
  now : Int

abbrev Attempt := ExceptT Operation (StateM State)

def operate (failure : Option Failure) (operation : Operation) (write : State → State) : Attempt Unit := do
  match failure.filter (·.operation = operation) with
  | none => modify write
  | some failure =>
    if failure.stored then modify write
    throw operation

def storeResults (run : Run) (now : Int) (failure : Option Failure) : Attempt Unit := do
  modify (remember run now)
  operate failure .putHistory fun s => { s with history := some ⟨s.healthHistory,86400*30⟩ }
  operate failure .putLatest fun s => { s with latest := some ⟨run.latest now,86400⟩ }
  operate failure .getMetrics id
  let existingMetrics := (← get).metrics
  let metrics := (existingMetrics.map (·.value)).getD noMetrics
  operate failure .putMetrics fun s => { s with metrics := some ⟨metrics.count run now,86400*30⟩ }

-- The engine runs the step again after each attempt that fails, in the same
-- isolate: the captured history is as the attempt has left it.
def failed (run : Run) (s : State) (failure : Failure) : State := ((storeResults run failure.now (some failure)).run s).2

def stored (run : Run) (s : State) (now : Int) : State := ((storeResults run now none).run s).2

def retried (run : Run) (s : State) (failures : List Failure) (now : Int) : State := stored run (failures.foldl (failed run) s) now

def reports (checkRecord : CheckRecord) (name : Text) : Option Bool := (checkRecord.find name).map (·.healthy)

def HealthHistory.reports (healthHistory : HealthHistory) : List (Text → Option Bool) :=
  healthHistory.checks.map fun check => HealthMonitoring.reports check.results

def HealthMetrics.counters (metrics : HealthMetrics) : HealthMetrics := { metrics with lastCheckAt := none, avgCheckDurationMs := 0 }

def Entry.map (f : α → β) (entry : Entry α) : Entry β := ⟨f entry.value,entry.expirationTtl⟩

@[ext]
structure Contents where
  history : Option (Entry (List (Text → Option Bool)))
  latest : Option (Entry Latest)
  metrics : Option (Entry HealthMetrics)

def contents (s : State) : Contents where
  history := s.history.map (·.map HealthHistory.reports)
  latest := s.latest.map (·.map fun latest => { latest with timestamp := 0 })
  metrics := s.metrics.map (·.map HealthMetrics.counters)

theorem assign_find (checkRecord : CheckRecord) (result : SourceHealthResult) (name : Text) :
    reports (assign checkRecord result) name =
      if result.name = name ∧ name ≠ "__proto__".toList then some result.healthy else reports checkRecord name := by
  unfold assign reports
  by_cases special : result.name = "__proto__".toList
  · rw [if_pos special,if_neg]
    exact fun named => named.2 (named.1.symm.trans special)
  · rw [if_neg special,find_upsert]
    by_cases named : result.name = name
    · rw [if_pos named.symm,if_pos ⟨named,named ▸ special⟩]
      rfl
    · rw [if_neg (Ne.symm named),if_neg fun both => named both.1]

theorem checkRecord_reports (run : Run) (other : name ≠ "__proto__".toList) :
    reports run.checkRecord name = (run.results.reverse.find? fun result => result.name = name).map (·.healthy) := by
  unfold Run.checkRecord
  rw [List.foldl_eq_foldr_reverse]
  induction run.results.reverse with
  | nil => rfl
  | cons result rest ih =>
    rw [List.foldr_cons,assign_find,ih,List.find?_cons]
    by_cases named : result.name = name
    · rw [if_pos ⟨named,other⟩]
      simp [named]
    · rw [if_neg fun both => named both.1]
      simp [named]

theorem copies_exact {copied : α} {items : List α} (present : 0 < copies) :
    (List.replicate copies copied ++ items).take bound = items.take bound ↔
      bound ≤ items.length ∧ ∀ item ∈ items.take bound, item = copied := by
  constructor
  · intro same
    have long : bound ≤ items.length := by
      have lengths := congrArg List.length same
      simp only [List.length_take,List.length_append,List.length_replicate] at lengths
      omega
    refine ⟨long,?_⟩
    -- an item is a copy, or the one that many places before it
    have each : ∀ i, i < bound → items[i]? = some copied := by
      intro i
      induction i using Nat.strong_induction_on with
      | h i ih =>
        intro inside
        have here := congrArg (·[i]?) same
        simp only [List.getElem?_take,inside,if_true] at here
        rw [← here]
        by_cases early : i < copies
        · simp [List.getElem?_append_left,early]
        · have back := ih (i-copies) (by omega) (by omega)
          rw [List.getElem?_append_right (by simpa using early),List.length_replicate]
          exact back
    intro item member
    obtain ⟨i,inside,found⟩ := List.mem_take_iff_getElem.mp member
    have copy := each i (by omega)
    rw [List.getElem?_eq_getElem (by omega)] at copy
    exact found.symm.trans (Option.some.inj copy)
  · intro holds
    obtain ⟨long,all⟩ := holds
    have whole : items.take bound = List.replicate bound copied :=
      List.eq_replicate_iff.mpr ⟨by simpa using long,all⟩
    have fewer : items.take (bound-copies) = List.replicate (bound-copies) copied := by
      rw [← Nat.min_eq_left (Nat.sub_le bound copies),← List.take_take,whole,List.take_replicate]
    rw [List.take_append,List.length_replicate,List.take_replicate,fewer,whole,List.replicate_append_replicate]
    congr 1
    omega

theorem remembered (run : Run) (now : Int) (s : State) :
    (remember run now s).healthHistory.checks = (⟨now,run.checkRecord⟩ :: s.healthHistory.checks).take keptChecks := by
  unfold remember
  dsimp only
  split
  · rfl
  · rename_i few
    exact (List.take_of_length_le (not_lt.mp few)).symm

theorem remembered_reports (run : Run) (now : Int) (s : State) :
    (remember run now s).healthHistory.reports = (reports run.checkRecord :: s.healthHistory.reports).take keptChecks := by
  rw [HealthHistory.reports,remembered,List.map_take]
  rfl

theorem stored_history (run : Run) (s : State) (now : Int) :
    (contents (stored run s now)).history = some ⟨reports run.checkRecord :: s.healthHistory.reports.take (keptChecks-1),86400*30⟩ := by
  change some (Entry.mk (remember run now s).healthHistory.reports _) = _
  rw [remembered_reports]
  rfl

theorem stored_latest (run : Run) (s : State) (now : Int) : (contents (stored run s now)).latest = some ⟨run.latest 0,86400⟩ := rfl

def metricsOf (s : State) : HealthMetrics := (s.metrics.map (·.value)).getD noMetrics

theorem stored_metrics (run : Run) (s : State) (now : Int) :
    (contents (stored run s now)).metrics = some ⟨((metricsOf s).count run now).counters,86400*30⟩ := rfl

-- A put of the metrics that is stored although it fails.
def Failure.counted (failure : Failure) : Bool := failure.operation = .putMetrics && failure.stored

theorem failed_history (run : Run) (s : State) (failure : Failure) :
    (failed run s failure).healthHistory = (remember run failure.now s).healthHistory := by
  obtain ⟨operation,kept,now⟩ := failure
  cases operation <;> cases kept <;> rfl

theorem failed_metrics (run : Run) (s : State) (failure : Failure) :
    (failed run s failure).metrics =
      if failure.counted then some ⟨(metricsOf s).count run failure.now,86400*30⟩ else s.metrics := by
  obtain ⟨operation,kept,now⟩ := failure
  cases operation <;> cases kept <;> rfl

-- The captured history has one more copy of the record for each failed attempt.
theorem failures_history (run : Run) (s : State) (failures : List Failure) :
    (failures.foldl (failed run) s).healthHistory.reports.take (keptChecks-1) =
      (List.replicate failures.length (reports run.checkRecord) ++ s.healthHistory.reports).take (keptChecks-1) := by
  induction failures generalizing s with
  | nil => rfl
  | cons failure rest ih =>
    have one : (failed run s failure).healthHistory.reports = (reports run.checkRecord :: s.healthHistory.reports).take keptChecks := by
      rw [HealthHistory.reports,failed_history]
      exact remembered_reports run failure.now s
    have cut : (keptChecks-1-rest.length) ⊓ keptChecks = keptChecks-1-rest.length :=
      Nat.min_eq_left ((Nat.sub_le _ _).trans (Nat.sub_le _ _))
    rw [List.foldl_cons,ih,one,List.length_cons,List.replicate_succ',List.append_assoc,List.singleton_append,List.take_append,
      List.take_append,List.length_replicate,List.take_take,cut]

theorem failures_metrics (run : Run) (s : State) {failures : List Failure} (uncounted : ∀ failure ∈ failures, failure.counted = false) :
    (failures.foldl (failed run) s).metrics = s.metrics := by
  induction failures generalizing s with
  | nil => rfl
  | cons failure rest ih =>
    rw [List.forall_mem_cons] at uncounted
    rw [List.foldl_cons,ih _ uncounted.2,failed_metrics,uncounted.1]
    rfl

theorem failures_counted (run : Run) (s : State) (failures : List Failure) :
    (metricsOf (failures.foldl (failed run) s)).totalChecks = (metricsOf s).totalChecks+failures.countP Failure.counted := by
  induction failures generalizing s with
  | nil => rfl
  | cons failure rest ih =>
    rw [List.foldl_cons,ih,List.countP_cons,metricsOf,failed_metrics]
    by_cases counted : failure.counted = true
    · rw [if_pos counted,if_pos counted]
      change (metricsOf s).totalChecks+1+_ = _
      omega
    · rw [if_neg counted,if_neg counted]
      rfl

theorem metrics_exact (run : Run) (s : State) (failures : List Failure) (now once : Int) :
    (contents (retried run s failures now)).metrics = (contents (stored run s once)).metrics ↔
      ∀ failure ∈ failures, failure.counted = false := by
  rw [retried,stored_metrics,stored_metrics]
  constructor
  · intro same
    have totals : (metricsOf (failures.foldl (failed run) s)).totalChecks+1 = (metricsOf s).totalChecks+1 :=
      congrArg (fun entry => entry.value.totalChecks) (Option.some.inj same)
    rw [failures_counted] at totals
    have none : failures.countP Failure.counted = 0 := by omega
    simpa using List.countP_eq_zero.mp none
  · intro uncounted
    rw [metricsOf,failures_metrics run s uncounted]
    rfl

def Saturated (run : Run) (s : State) : Prop :=
  keptChecks-1 ≤ s.healthHistory.checks.length ∧
    ∀ check ∈ s.healthHistory.checks.take (keptChecks-1), reports check.results = reports run.checkRecord

theorem history_exact (run : Run) (s : State) (failures : List Failure) (now once : Int) :
    (contents (retried run s failures now)).history = (contents (stored run s once)).history ↔
      failures = [] ∨ Saturated run s := by
  rw [retried,stored_history,stored_history,failures_history]
  simp only [Option.some.injEq,Entry.mk.injEq,List.cons.injEq,true_and,and_true]
  by_cases none : failures = []
  · subst none
    exact iff_of_true rfl (.inl rfl)
  · rw [copies_exact (List.length_pos_iff.mpr none),or_iff_right none,Saturated,HealthHistory.reports,← List.map_take]
    simp only [List.length_map,List.forall_mem_map]

-- The step is executed once at any time, or again after each failure.
theorem retry_exact (run : Run) (s : State) (failures : List Failure) (now once : Int) :
    contents (retried run s failures now) = contents (stored run s once) ↔
      failures = [] ∨ Saturated run s ∧ ∀ failure ∈ failures, failure.counted = false := by
  have parts : contents (retried run s failures now) = contents (stored run s once) ↔
      (contents (retried run s failures now)).history = (contents (stored run s once)).history ∧
        (contents (retried run s failures now)).metrics = (contents (stored run s once)).metrics := by
    constructor
    · intro same
      exact ⟨congrArg Contents.history same,congrArg Contents.metrics same⟩
    · intro same
      have latest : (contents (retried run s failures now)).latest = (contents (stored run s once)).latest := by
        rw [retried,stored_latest,stored_latest]
      exact Contents.ext same.1 latest same.2
  rw [parts,history_exact,metrics_exact]
  constructor
  · rintro ⟨none | saturated,uncounted⟩
    · exact .inl none
    · exact .inr ⟨saturated,uncounted⟩
  · rintro (none | ⟨saturated,uncounted⟩)
    · subst none
      exact ⟨.inl rfl,fun _ member => absurd member List.not_mem_nil⟩
    · exact ⟨.inr saturated,uncounted⟩

def sampleResult : SourceHealthResult := ⟨"EasyList".toList,"https://easylist.to/easylist/easylist.txt".toList,true,some 200,some 120,some 60,none,0⟩
def sampleRun : Run := ⟨"run".toList,0,[sampleResult],false⟩

-- The first run of all, whose first put fails once.
theorem sampleRun_doubled :
    (retried sampleRun (load ⟨none,none,none,⟨[]⟩⟩) [⟨.putHistory,false,1000⟩] 3000).history.map (·.value.checks.length) = some 2 ∧
      contents (retried sampleRun (load ⟨none,none,none,⟨[]⟩⟩) [⟨.putHistory,false,1000⟩] 3000) ≠
        contents (stored sampleRun (load ⟨none,none,none,⟨[]⟩⟩) 1000) := by
  refine ⟨rfl,?_⟩
  intro same
  have lengths : some 2 = some 1 := congrArg (fun held => held.history.map (·.value.length)) same
  exact absurd lengths (by decide)

-- What the analysis of the next run makes of a report.
def faulty (name : Text) (report : Text → Option Bool) : Bool := ((report name).map (!·)).getD (name ∈ inherited)

theorem failing_faulty (name : Text) (results : CheckRecord) : failing name results = faulty name (reports results) := by
  unfold failing faulty reports
  cases results.find name with
  | none => rfl
  | some sourceCheck => rfl

theorem consecutive_exact : consecutiveFailures healthHistory name ≥ failureThreshold ↔
    ∃ newest older rest, healthHistory.reports = newest :: older :: rest ∧ faulty name newest = true ∧ faulty name older = true := by
  obtain ⟨checks⟩ := healthHistory
  rcases checks with _ | ⟨newest,_ | ⟨older,rest⟩⟩
  · simp [consecutiveFailures,failureThreshold,HealthHistory.reports]
  · by_cases one : failing name newest.results = true <;> simp [consecutiveFailures,failureThreshold,HealthHistory.reports,one]
  · rw [HealthHistory.reports]
    by_cases one : failing name newest.results = true <;> by_cases two : failing name older.results = true <;>
      simp [consecutiveFailures,failureThreshold,← failing_faulty,one,two]

theorem alerted_exact : name ∈ shouldAlert alertOnFailure results healthHistory ↔
    alertOnFailure = true ∧ (∃ result ∈ results, result.healthy = false ∧ result.name = name) ∧
      ∃ newest older rest, healthHistory.reports = newest :: older :: rest ∧ faulty name newest = true ∧ faulty name older = true := by
  rw [← consecutive_exact]
  cases alertOnFailure with
  | false => simp [shouldAlert]
  | true =>
    simp only [shouldAlert,Bool.not_true,Bool.false_eq_true,if_false,List.mem_map,List.mem_filter,Bool.and_eq_true,Bool.not_eq_true',
      decide_eq_true_eq,true_and]
    constructor
    · rintro ⟨result,⟨member,failed,often⟩,named⟩
      exact ⟨⟨result,member,failed,named⟩,named ▸ often⟩
    · rintro ⟨⟨result,member,failed,named⟩,often⟩
      exact ⟨result,⟨member,failed,named ▸ often⟩,named⟩

theorem loaded_reports (run : Run) (s : State) (now : Int) :
    (load (stored run s now)).healthHistory.reports = reports run.checkRecord :: s.healthHistory.reports.take (keptChecks-1) := by
  change (remember run now s).healthHistory.reports = _
  rw [remembered_reports]
  rfl

-- After a step executed once, the alert also waits for the check before it.
theorem single_alert : name ∈ shouldAlert true results (load (stored run s now)).healthHistory ↔
    (∃ result ∈ results, result.healthy = false ∧ result.name = name) ∧ failing name run.checkRecord = true ∧
      ∃ newest rest, s.healthHistory.reports = newest :: rest ∧ faulty name newest = true := by
  rw [alerted_exact,loaded_reports,failing_faulty]
  cases s.healthHistory.reports with
  | nil => simp
  | cons newest rest => simp [keptChecks]

-- After a step executed again, it does not: the same check is there twice.
theorem retried_alert {failures : List Failure} (present : failures ≠ []) :
    name ∈ shouldAlert true results (load (retried run s failures now)).healthHistory ↔
      (∃ result ∈ results, result.healthy = false ∧ result.name = name) ∧ failing name run.checkRecord = true := by
  obtain ⟨failure,rest,rfl⟩ := List.exists_cons_of_ne_nil present
  rw [alerted_exact,retried,loaded_reports,failures_history,failing_faulty,List.length_cons,List.replicate_succ]
  simp [keptChecks]

end AdblockCompiler.HealthMonitoring
