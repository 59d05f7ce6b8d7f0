import AdblockCompiler.BatchCompilation
import AdblockCompiler.HealthMonitoring
import AdblockCompiler.QueueStats
import AdblockCompiler.SharedCells

-- The metrics that the workflows keep in KV. Each step that updates them reads
-- its entry and puts it back, and nothing keeps other instances from doing the
-- same in between. Times are milliseconds.
namespace AdblockCompiler.WorkflowMetrics
open JsText Schedules SharedCells BatchCompilation
open HealthMonitoring (roundedMean)
open Queue (roundedQuotient)

structure CompileMetrics where
  totalCompilations : Nat
  successfulCompilations : Nat
  failedCompilations : Nat
  totalRulesGenerated : Nat
  avgDurationMs : Int
  deriving DecidableEq

structure BatchMetrics where
  totalBatches : Nat
  totalRequests : Nat
  successfulRequests : Nat
  failedRequests : Nat
  avgBatchSize : Nat
  avgDurationMs : Int
  deriving DecidableEq

-- lastRunAt is none for the empty text.
structure CacheWarmMetrics where
  totalRuns : Nat
  scheduledRuns : Nat
  manualRuns : Nat
  totalConfigsWarmed : Nat
  totalConfigsFailed : Nat
  lastRunAt : Option Int
  avgDurationMs : Int
  deriving DecidableEq

inductive MetricsKey where
  | compile | batch | cacheWarm
  deriving DecidableEq

def MetricsKey.text : MetricsKey → Text
  | .compile => "workflow:compile:metrics".toList
  | .batch => "workflow:batch:metrics".toList
  | .cacheWarm => "workflow:cache-warm:metrics".toList

abbrev Metrics : MetricsKey → Type
  | .compile => CompileMetrics
  | .batch => BatchMetrics
  | .cacheWarm => CacheWarmMetrics

-- update-metrics of CompilationWorkflow
def compiled (ruleCount : Nat) (totalDuration : Int) (existingMetrics : Option CompileMetrics) : CompileMetrics :=
  let metrics := existingMetrics.getD ⟨0,0,0,0,0⟩
  let totalCompilations := metrics.totalCompilations+1
  { totalCompilations := totalCompilations
    successfulCompilations := metrics.successfulCompilations+1
    failedCompilations := metrics.failedCompilations
    totalRulesGenerated := metrics.totalRulesGenerated+ruleCount
    avgDurationMs := roundedMean (metrics.avgDurationMs*(totalCompilations-1)+totalDuration) totalCompilations }

def compilationFailed (existingMetrics : Option CompileMetrics) : CompileMetrics :=
  let metrics := existingMetrics.getD ⟨0,0,0,0,0⟩
  { metrics with
    totalCompilations := metrics.totalCompilations+1
    failedCompilations := metrics.failedCompilations+1 }

def batchCompiled (requests : List Request) (progress : Progress) (totalDuration : Int) (existingMetrics : Option BatchMetrics) : BatchMetrics :=
  let metrics := existingMetrics.getD ⟨0,0,0,0,0,0⟩
  let totalBatches := metrics.totalBatches+1
  let totalRequests := metrics.totalRequests+requests.length
  { totalBatches := totalBatches
    totalRequests := totalRequests
    successfulRequests := metrics.successfulRequests+progress.successful
    failedRequests := metrics.failedRequests+progress.failed
    avgBatchSize := roundedQuotient totalRequests totalBatches
    avgDurationMs := roundedMean (metrics.avgDurationMs*(totalBatches-1)+totalDuration) totalBatches }

def cacheWarmed (scheduled : Bool) (warmedConfigurations failedConfigurations : Nat) (now totalDuration : Int)
    (existingMetrics : Option CacheWarmMetrics) : CacheWarmMetrics :=
  let metrics := existingMetrics.getD ⟨0,0,0,0,0,none,0⟩
  let totalRuns := metrics.totalRuns+1
  { totalRuns := totalRuns
    scheduledRuns := if scheduled then metrics.scheduledRuns+1 else metrics.scheduledRuns
    manualRuns := if scheduled then metrics.manualRuns else metrics.manualRuns+1
    totalConfigsWarmed := metrics.totalConfigsWarmed+warmedConfigurations
    totalConfigsFailed := metrics.totalConfigsFailed+failedConfigurations
    lastRunAt := some now
    avgDurationMs := roundedMean (metrics.avgDurationMs*(totalRuns-1)+totalDuration) totalRuns }

-- An attempt of a step that updates metrics, with what its run has counted by
-- then: update-batch-metrics comes after all chunks.
inductive Update where
  | compiled (ruleCount : Nat) (totalDuration : Int)
  | compilationFailed
  | batchCompiled (requests : List Request) (progress : Progress) (reached : Reaches requests progress (chunkCount requests)) (totalDuration : Int)
  | cacheWarmed (scheduled : Bool) (warmedConfigurations failedConfigurations : Nat) (now totalDuration : Int)

def Update.job : Update → Job Metrics
  | .compiled ruleCount totalDuration => ⟨.compile,WorkflowMetrics.compiled ruleCount totalDuration⟩
  | .compilationFailed => ⟨.compile,WorkflowMetrics.compilationFailed⟩
  | .batchCompiled requests progress _ totalDuration => ⟨.batch,WorkflowMetrics.batchCompiled requests progress totalDuration⟩
  | .cacheWarmed scheduled warmed failed now totalDuration => ⟨.cacheWarm,WorkflowMetrics.cacheWarmed scheduled warmed failed now totalDuration⟩

def AddsUp : (key : MetricsKey) → Metrics key → Prop
  | .compile,metrics => metrics.totalCompilations = metrics.successfulCompilations+metrics.failedCompilations
  | .batch,metrics => metrics.totalRequests = metrics.successfulRequests+metrics.failedRequests ∧
      metrics.avgBatchSize = roundedQuotient metrics.totalRequests metrics.totalBatches
  | .cacheWarm,metrics => metrics.totalRuns = metrics.scheduledRuns+metrics.manualRuns

theorem reaches_total (reached : Reaches requests progress (chunkCount requests)) : progress.successful+progress.failed = requests.length := by
  have served := reached.served
  rw [chunks_all] at served
  rw [counts_total reached.counts,served.length_eq]

theorem getD_adds (key : MetricsKey) {existingMetrics : Option (Metrics key)} (zero : Metrics key) (first : AddsUp key zero)
    (before : ∀ metrics, existingMetrics = some metrics → AddsUp key metrics) : AddsUp key (existingMetrics.getD zero) := by
  cases existingMetrics with
  | none => exact first
  | some metrics => exact before metrics rfl

theorem update_adds (update : Update) (existingMetrics : Option (Metrics update.job.key))
    (before : ∀ metrics, existingMetrics = some metrics → AddsUp update.job.key metrics) :
    AddsUp update.job.key (update.job.update existingMetrics) := by
  cases update with
  | compiled ruleCount totalDuration =>
    have adds := getD_adds .compile ⟨0,0,0,0,0⟩ rfl before
    simp only [AddsUp,Update.job,compiled] at adds ⊢
    omega
  | compilationFailed =>
    have adds := getD_adds .compile ⟨0,0,0,0,0⟩ rfl before
    simp only [AddsUp,Update.job,compilationFailed] at adds ⊢
    omega
  | batchCompiled requests progress reached totalDuration =>
    have adds := getD_adds .batch ⟨0,0,0,0,0,0⟩ ⟨rfl,rfl⟩ before
    have total := reaches_total reached
    refine ⟨?_,rfl⟩
    have counted := adds.1
    simp only [Update.job,batchCompiled] at counted ⊢
    omega
  | cacheWarmed scheduled warmed failed now totalDuration =>
    have adds := getD_adds .cacheWarm ⟨0,0,0,0,0,none,0⟩ rfl before
    simp only [AddsUp,Update.job,cacheWarmed] at adds ⊢
    cases scheduled with
    | true => simp only [if_true]; omega
    | false => simp only [Bool.false_eq_true,if_false]; omega

def tallied : (key : MetricsKey) → Option (Metrics key) → Nat × Nat
  | .compile,some metrics => (metrics.totalCompilations,metrics.totalRulesGenerated)
  | .batch,some metrics => (metrics.totalBatches,metrics.totalRequests)
  | .cacheWarm,some metrics => (metrics.totalRuns,metrics.totalConfigsWarmed+metrics.totalConfigsFailed)
  | _,none => (0,0)

def Update.amount : Update → Nat
  | .compiled ruleCount _ => ruleCount
  | .compilationFailed => 0
  | .batchCompiled requests _ _ _ => requests.length
  | .cacheWarmed _ warmedConfigurations failedConfigurations _ _ => warmedConfigurations+failedConfigurations

theorem update_tallied (update : Update) (existingMetrics : Option (Metrics update.job.key)) :
    tallied update.job.key (some (update.job.update existingMetrics)) =
      ((tallied update.job.key existingMetrics).1+1,(tallied update.job.key existingMetrics).2+update.amount) := by
  cases update with
  | compiled ruleCount totalDuration => cases existingMetrics <;> rfl
  | compilationFailed => cases existingMetrics <;> rfl
  | batchCompiled requests progress reached totalDuration => cases existingMetrics <;> rfl
  | cacheWarmed scheduled warmed failed now totalDuration =>
    cases existingMetrics with
    | none =>
      refine Prod.ext rfl ?_
      change (0+warmed)+(0+failed) = 0+(warmed+failed)
      omega
    | some metrics =>
      refine Prod.ext rfl ?_
      change (metrics.totalConfigsWarmed+warmed)+(metrics.totalConfigsFailed+failed) =
        metrics.totalConfigsWarmed+metrics.totalConfigsFailed+(warmed+failed)
      omega

section Instances
variable {ι : Type} [DecidableEq ι]

abbrev jobs (updates : ι → Update) : ι → Job Metrics := fun party => (updates party).job

def written (updates : ι → Update) (key : MetricsKey) (events : List (Event ι MetricsKey)) : List ι := since (jobs updates) key [] events

omit [DecidableEq ι] in
theorem settled_tallied (updates : ι → Update) (key : MetricsKey) (events : List (Event ι MetricsKey)) :
    tallied key (settled (jobs updates) (fun _ => none) events key) =
      ((written updates key events).length,total (fun party => (updates party).amount) (written updates key events)) := by
  refine settled_since (fun key parties entry => tallied key entry = (parties.length,total (fun party => (updates party).amount) parties))
    ?_ ?_ key [] ?_ events
  · intro key
    cases key <;> rfl
  · intro party done before tells
    rw [update_tallied,tells,total_append]
    simp [total]
  · cases key <;> rfl

end Instances

-- Two runs that warm the cache, one of which reads before the other has put, or
-- only afterwards.
def twoRuns (party : Bool) : Update := .cacheWarmed party 2 1 0 0

def overlapping : List (Event Bool MetricsKey) := [.read true,.read false,.write true,.write false]
def inTurn : List (Event Bool MetricsKey) := [.read true,.write true,.read false,.stop false,.read false,.write false]

end AdblockCompiler.WorkflowMetrics
