import AdblockCompiler.CompileRequest

-- Runs of requests over one compilation cache.
namespace AdblockCompiler.CompilationCache
open JsText JsonText Schedules Exceptions CacheKeys CompileRequest
open Pending (CompilationResult)

structure State where
  now : Nat
  cache : Cache
  stored : List (Text × Entry)

def start (now : Nat) : State := ⟨now,fun _ => none,[]⟩

-- Time passes, another handler puts an entry, or a request is served. Requests
-- come in the order in which they read the cache.
inductive Event where
  | passes (seconds : Nat)
  | puts (cacheKey : Text) (entry : Entry)
  | request (request : Request) (env : Environment)

def State.serve (sha256 : Text → Digest) (s : State) (request : Request) (env : Environment) : Except Thrown Response × Progress :=
  CompileRequest.serve sha256 env s.now request ⟨0,s.cache,s.stored⟩

def step (sha256 : Text → Digest) (s : State) : Event → Option State
  | .passes seconds => some { s with now := s.now+seconds }
  | .puts cacheKey entry => some { s with cache := s.cache.put cacheKey entry,stored := (cacheKey,entry) :: s.stored }
  | .request request env =>
    let progress := (s.serve sha256 request env).2
    some { s with cache := progress.cache,stored := progress.stored }

-- What was put under a key last.
def latest (stored : List (Text × Entry)) (cacheKey : Text) : Option Entry :=
  (stored.find? fun part => part.1 = cacheKey).map Prod.snd

def Kept (cache : Cache) (stored : List (Text × Entry)) : Prop := ∀ cacheKey, cache cacheKey = latest stored cacheKey

theorem kept_put (kept : Kept cache stored) (cacheKey : Text) (entry : Entry) :
    Kept (cache.put cacheKey entry) ((cacheKey,entry) :: stored) := by
  intro other
  unfold Cache.put latest
  by_cases same : other = cacheKey
  · rw [if_pos same,List.find?_cons_of_pos (by simp [same])]
    rfl
  · rw [if_neg same,List.find?_cons_of_neg (by simpa using Ne.symm same)]
    exact kept other

-- A handler puts nothing into the cache but what it records.
abbrev Records (handler : Handler α) : Prop := Keeps (fun p => Kept p.cache p.stored) handler

theorem records_settle (answer : Except Thrown α) : Records (settle answer) := fun _ kept => kept

theorem records_notify (failure : Option Thrown) : Records (notify failure) := by
  cases failure with
  | none => exact keeps_pure ()
  | some error => exact keeps_throw error

theorem records_compileWithMetrics (env : Environment) : Records (compileWithMetrics env) := fun _ kept => kept

theorem records_compiledResponse (env : Environment) : Records (compiledResponse env) := by
  refine keeps_bind keeps_get ?_
  intro progress
  apply keeps_bind (records_compileWithMetrics env)
  intro rules
  exact keeps_pure _

theorem records_cacheResponse (env : Environment) (now : Nat) (cacheKey : Text) (response : CompilationResult) :
    Records (cacheResponse env now cacheKey response) := by
  intro p kept
  unfold cacheResponse
  split
  · exact kept
  · exact kept_put kept cacheKey _

theorem records_compileFn (env : Environment) (now : Nat) (cacheKey : Text) : Records (compileFn env now cacheKey) := by
  apply keeps_bind (records_compiledResponse env)
  intro response
  apply keeps_bind (records_cacheResponse env now cacheKey response)
  intro done
  exact keeps_pure response

theorem records_coordinate (answers : Answers) {compile : Handler CompilationResult} (compiles : Records compile) :
    Records (coordinateCompilationWithDO answers compile) := by
  apply keeps_bind (records_settle answers.acquire)
  intro acquired
  cases acquired with
  | false =>
    apply keeps_bind (records_settle answers.wait)
    intro answer
    cases answer with
    | ok result => exact keeps_pure _
    | notOk status error => exact keeps_throw _
  | true =>
    apply keeps_catch
    · apply keeps_bind compiles
      intro result
      exact keeps_bind (records_notify answers.complete) fun _ => keeps_pure result
    · intro error
      exact keeps_bind (records_notify answers.fail) fun _ => keeps_throw error

theorem records_coordinated (env : Environment) (now : Nat) (cacheKey : Text) (answers : Answers) :
    Records (coordinated env now cacheKey answers) := by
  apply keeps_bind (records_coordinate answers (records_compileFn env now cacheKey))
  intro result
  split
  · exact keeps_pure _
  · exact keeps_pure _

theorem records_compileLocally (env : Environment) (now : Nat) (cacheKey : Option Text) :
    Records (compileLocally env now cacheKey) := by
  refine keeps_bind (keeps_catch ?_ fun error => keeps_pure _) fun result => keeps_pure _
  cases cacheKey with
  | none => exact records_compiledResponse env
  | some cacheKey => exact records_compileFn env now cacheKey

theorem records_fallback (env : Environment) (now : Nat) (cacheKey : Text) : Records (fallback env now cacheKey) := by
  intro p kept
  cases found : foundLocally env p.cache now cacheKey with
  | some answer =>
    rw [fallback_found found]
    exact kept
  | none =>
    rw [fallback_compiles found]
    exact records_compileLocally env now (some cacheKey) p kept

theorem records_handle (env : Environment) (now : Nat) (cacheKey : Option Text) : Records (handleCompileJson env now cacheKey) := by
  cases cacheKey with
  | none => exact records_compileLocally env now none
  | some cacheKey =>
    unfold handleCompileJson
    cases env.coordinator with
    | none => exact records_fallback env now cacheKey
    | some answers => exact keeps_catch (records_coordinated env now cacheKey answers) fun _ => records_fallback env now cacheKey

theorem kept_step (sha256 : Text → Digest) (s : State) (event : Event) (t : State) (kept : Kept s.cache s.stored)
    (stepped : step sha256 s event = some t) : Kept t.cache t.stored := by
  cases event with
  | passes seconds =>
    cases stepped
    exact kept
  | puts cacheKey entry =>
    cases stepped
    exact kept_put kept cacheKey entry
  | request request env =>
    cases stepped
    exact records_handle env s.now (request.cacheKey sha256) ⟨0,s.cache,s.stored⟩ kept

theorem kept_run (ran : run (step sha256) (start now) events = some s) : Kept s.cache s.stored :=
  run_keeps (fun s => Kept s.cache s.stored) (kept_step sha256) (fun _ => rfl) ran

-- The same result, whatever it says about where it comes from.
def SameResult (one two : CompilationResult) : Prop :=
  { one with cached := false,deduplicated := false } = { two with cached := false,deduplicated := false }

def Returns (result : CompilationResult) (served : Except Thrown Response × Progress) : Prop :=
  served.2.executions = 0 ∧ ∃ returned header, served.1 = .ok (.success returned header) ∧ SameResult returned result

-- The fallback takes a pending compilation for the key before the cache.
def ReadsLocally (env : Environment) (result : CompilationResult) : Prop :=
  match env.pending with
  | some pending => SameResult pending result
  | none => env.readFails = none

-- The request gets to the fallback without compiling, or what it waits for at
-- the coordinator is the same result.
def ReadsThrough (answers : Answers) (env : Environment) (result : CompilationResult) : Prop :=
  match answers.acquire,answers.wait with
  | .ok true,_ => False
  | .ok false,.ok (.ok waited) => SameResult waited result
  | _,_ => ReadsLocally env result

def ReadsCache (env : Environment) (result : CompilationResult) : Prop :=
  match env.coordinator with
  | none => ReadsLocally env result
  | some answers => ReadsThrough answers env result

section Hits
variable {sha256 : Text → Digest} {env : Environment} {now : Nat} {request : Request} {cache : Cache}
  {stored : List (Text × Entry)} {cacheKey : Text} {result : CompilationResult}

theorem get_hit (entry : cache cacheKey = some ⟨some result,expires⟩) (fresh : now < expires) :
    cache.get now cacheKey = .hit result := by
  unfold Cache.get
  rw [entry]
  exact if_pos fresh

theorem returns_success (returned : CompilationResult) (header : Header) :
    Returns result (.ok (.success returned header),⟨0,cache,stored⟩) ↔ SameResult returned result := by
  constructor
  · intro returns
    obtain ⟨-,other,_,same,alike⟩ := returns
    cases same
    exact alike
  · intro alike
    exact ⟨rfl,returned,header,rfl,alike⟩

theorem fallback_returns (hit : cache.get now cacheKey = .hit result) :
    Returns result ((fallback env now cacheKey).from ⟨0,cache,stored⟩) ↔ ReadsLocally env result := by
  unfold ReadsLocally
  cases pending : env.pending with
  | some promised =>
    have found : foundLocally env cache now cacheKey = some (.ok (.success { promised with deduplicated := true } .deduplicated)) := by
      unfold foundLocally
      rw [pending]
    rw [@fallback_found env now cacheKey ⟨0,cache,stored⟩ _ found]
    exact returns_success _ _
  | none =>
    cases failed : env.readFails with
    | some error =>
      have found : foundLocally env cache now cacheKey = some (.error error) := by
        unfold foundLocally Environment.read
        simp only [pending,failed]
      rw [@fallback_found env now cacheKey ⟨0,cache,stored⟩ _ found]
      constructor
      · intro returns
        obtain ⟨-,returned,header,same,-⟩ := returns
        cases same
      · intro none
        cases none
    | none =>
      have found : foundLocally env cache now cacheKey = some (.ok (.success { result with cached := true } .cacheHit)) := by
        unfold foundLocally Environment.read
        simp only [pending,failed,hit]
      rw [@fallback_found env now cacheKey ⟨0,cache,stored⟩ _ found]
      exact (returns_success _ _).trans ⟨fun _ => rfl,fun _ => rfl⟩

-- With the lock, the request compiles whatever the cache holds.
theorem granted_compiles {answers : Answers} (present : env.coordinator = some answers) (granted : answers.acquire = .ok true) :
    ((handleCompileJson env now (some cacheKey)).from p).2.executions ≠ p.executions := by
  have fallen : ∀ q : Progress, q.executions = p.executions+1 → ((fallback env now cacheKey).from q).2.executions ≠ p.executions := by
    intro q ran
    rw [fallback_executions]
    split
    · omega
    · omega
  cases compiled : env.compiler with
  | error error =>
    obtain ⟨thrown,call⟩ := @coordinated_failed env answers now cacheKey p error granted compiled
    rw [handle_fallen present call]
    exact fallen p.ran rfl
  | ok rules =>
    cases completed : answers.complete with
    | none =>
      rw [handle_answered present (coordinated_completed granted compiled completed),cached_executions]
      exact Nat.succ_ne_self _
    | some lost =>
      obtain ⟨thrown,call⟩ := @coordinated_unanswered env answers now cacheKey p rules lost granted compiled completed
      rw [handle_fallen present call]
      exact fallen _ (cached_executions _ _)

theorem handle_returns (hit : cache.get now cacheKey = .hit result) :
    Returns result ((handleCompileJson env now (some cacheKey)).from ⟨0,cache,stored⟩) ↔ ReadsCache env result := by
  unfold ReadsCache
  cases present : env.coordinator with
  | none =>
    rw [handle_alone present]
    exact fallback_returns hit
  | some answers =>
    show _ ↔ ReadsThrough answers env result
    unfold ReadsThrough
    cases acquired : answers.acquire with
    | error error =>
      rw [handle_fallen present (coordinated_lost acquired)]
      exact fallback_returns hit
    | ok granted =>
      cases granted with
      | true =>
        constructor
        · intro returns
          exact granted_compiles present acquired returns.1
        · intro never
          exact never.elim
      | false =>
        have call := @coordinated_refused env answers now cacheKey ⟨0,cache,stored⟩ acquired
        unfold Answers.waited at call
        cases waited : answers.wait with
        | error error =>
          rw [waited] at call
          rw [handle_fallen present call]
          exact fallback_returns hit
        | ok answer =>
          rw [waited] at call
          cases answer with
          | notOk status error =>
            rw [handle_fallen present call]
            exact fallback_returns hit
          | ok other =>
            rw [handle_answered present call]
            exact returns_success _ _

end Hits

-- In every state that a run reaches, a request for a configuration whose result
-- is in the cache gets that result just when it comes to read the cache.
theorem cache_honoured_exact (ran : run (step sha256) (start now) events = some s)
    (stored : latest s.stored (getCacheKey sha256 configuration) = some ⟨some result,expires⟩) (fresh : s.now < expires)
    (same : Reordered configuration request.configuration)
    (plain : request.preFetchedContent = none ∨ request.preFetchedContent = some []) :
    Returns result (s.serve sha256 request env) ↔ ReadsCache env result := by
  have keyed : request.cacheKey sha256 = some (getCacheKey sha256 configuration) := by
    unfold Request.cacheKey
    rw [getCacheKey_reordered sha256 same]
    rcases plain with none | empty
    · rw [none]
    · rw [empty]
  have entry := (kept_run ran _).trans stored
  unfold State.serve serve
  rw [keyed]
  exact handle_returns (get_hit entry fresh)

-- A Worker without the binding compiles the list.
def alone : Environment where
  coordinator := none
  pending := none
  readFails := none
  putFails := false
  compiler := .ok ["||ads.example^".toList]
  dates := fun _ => "2026-01-01T00:00:00.000Z".toList

def listResult : CompilationResult := .compiled ["||ads.example^".toList] "2026-01-01T00:00:00.000Z".toList

-- The same list, its fields in the other order.
def reversedRequest : Request := ⟨.object (oneSource "https://a.example/list.txt").reverse,none⟩

theorem list_reordered : Reordered listRequest.configuration reversedRequest.configuration :=
  .keys (List.reverse_perm _).symm (by decide)

def oneCompiled : List Event := [.request listRequest alone,.passes 60]

theorem reversed_returned : ∃ s, run (step fun _ => listDigest) (start 0) oneCompiled = some s ∧
    (Returns listResult (s.serve (fun _ => listDigest) reversedRequest alone) ↔ ReadsCache alone listResult) := by
  have ran : run (step fun _ => listDigest) (start 0) oneCompiled = some _ := rfl
  exact ⟨_,ran,cache_honoured_exact ran rfl (by decide) list_reordered (.inl rfl)⟩

-- A minute later, a Worker that is granted the lock compiles it again.
theorem compiled_again : ¬∀ sha256 now events s configuration result expires request env,
    run (step sha256) (start now) events = some s →
      latest s.stored (getCacheKey sha256 configuration) = some ⟨some result,expires⟩ → result.success = true → s.now < expires →
      Reordered configuration request.configuration → request.preFetchedContent = none → Returns result (s.serve sha256 request env) := by
  intro always
  have returns := always (fun _ => listDigest) 0 oneCompiled _ _ listResult 3600 listRequest
    { alone with coordinator := some ⟨.ok true,.ok Coordinator.timeout,none,none⟩ } rfl rfl rfl (by decide) (.refl _) rfl
  cases returns.1

end AdblockCompiler.CompilationCache
