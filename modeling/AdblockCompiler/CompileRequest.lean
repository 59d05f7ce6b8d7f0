import AdblockCompiler.CacheKeys
import AdblockCompiler.Coordinator
import AdblockCompiler.Exceptions
import AdblockCompiler.Pending

-- handleCompileJson as a whole: the coordinator path, the Worker-local fallback
-- and the compilation cache.
namespace AdblockCompiler.CompileRequest
open JsText JsonText Exceptions CacheKeys
open Coordinator (WaitResponse waitError failBody poll store)
open Pending (CompilationResult CacheRead)

-- A value that does not decompress to a result is kept as none.
structure Entry where
  value : Option CompilationResult
  expires : Nat

abbrev Cache := Text → Option Entry

def Cache.get (cache : Cache) (now : Nat) (cacheKey : Text) : CacheRead :=
  match cache cacheKey with
  | none => .missed
  | some entry =>
    if now < entry.expires then
      match entry.value with
      | some result => .hit result
      | none => .unreadable
    else .missed

def Cache.put (cache : Cache) (cacheKey : Text) (entry : Entry) : Cache :=
  fun other => if other = cacheKey then some entry else cache other

-- WORKER_DEFAULTS.CACHE_TTL_SECONDS
def cacheTtl : Nat := 3600

structure Request where
  configuration : Json
  preFetchedContent : Option (List (Text × Text))

def Request.cacheKey (sha256 : Text → Digest) (request : Request) : Option Text :=
  match request.preFetchedContent with
  | none | some [] => some (getCacheKey sha256 request.configuration)
  | some (_ :: _) => none

-- What the fetches of one request to the coordinator settle with.
structure Answers where
  acquire : Except Thrown Bool
  wait : Except Thrown (WaitResponse CompilationResult)
  complete : Option Thrown
  fail : Option Thrown

-- What else decides a request: the promise found in pendingCompilations, the
-- failures of the cache, and the compiler, which is given the same configuration
-- each time it runs. The dates are those of its runs.
structure Environment where
  coordinator : Option Answers
  pending : Option CompilationResult
  readFails : Option Thrown
  putFails : Bool
  compiler : Except Thrown (List Text)
  dates : Nat → Text

-- stored is history: all that was put into the cache, newest first.
structure Progress where
  executions : Nat
  cache : Cache
  stored : List (Text × Entry)

abbrev Handler := Computation Thrown Progress

def settle (answer : Except Thrown α) : Handler α := ExceptT.mk (pure answer)

def notify (failure : Option Thrown) : Handler Unit :=
  match failure with
  | none => pure ()
  | some error => throw error

def Progress.put (progress : Progress) (cacheKey : Text) (entry : Entry) : Progress :=
  { progress with cache := progress.cache.put cacheKey entry,stored := (cacheKey,entry) :: progress.stored }

def Progress.ran (progress : Progress) : Progress := { progress with executions := progress.executions+1 }

def compileWithMetrics (env : Environment) : Handler (List Text) := do
  modify Progress.ran
  settle env.compiler

def compiledResponse (env : Environment) : Handler CompilationResult := do
  let progress ← get
  let rules ← compileWithMetrics env
  return .compiled rules (env.dates progress.executions)

-- A response that cannot be put is returned all the same.
def cacheResponse (env : Environment) (now : Nat) (cacheKey : Text) (response : CompilationResult) : Handler Unit :=
  if env.putFails then pure () else modify (·.put cacheKey ⟨some response,now+cacheTtl⟩)

def compileFn (env : Environment) (now : Nat) (cacheKey : Text) : Handler CompilationResult := do
  let response ← compiledResponse env
  cacheResponse env now cacheKey response
  return response

def coordinateCompilationWithDO (answers : Answers) (compileFn : Handler CompilationResult) : Handler CompilationResult := do
  let acquired ← settle answers.acquire
  if !acquired then
    match ← settle answers.wait with
    | .notOk _ error => throw (waitError error)
    | .ok result => pure { result with deduplicated := true }
  else
    try
      let result ← compileFn
      notify answers.complete
      pure result
    catch error =>
      notify answers.fail
      throw error

inductive Header where
  | deduplicated | cacheHit | cacheMiss
  deriving DecidableEq, Repr

inductive Response where
  | success (result : CompilationResult) (header : Header)
  | serverError (message : Text)
  deriving DecidableEq, Repr

-- result.error || 'Compilation failed'
def failureMessage (result : CompilationResult) : Text :=
  match result.error with
  | none | some [] => "Compilation failed".toList
  | some message => message

def respond (result : CompilationResult) : Response :=
  if result.success then .success result .cacheMiss else .serverError (failureMessage result)

def coordinated (env : Environment) (now : Nat) (cacheKey : Text) (answers : Answers) : Handler Response := do
  let result ← coordinateCompilationWithDO answers (compileFn env now cacheKey)
  if result.deduplicated then return .success result .deduplicated
  return respond result

def compilationPromise (env : Environment) (now : Nat) (cacheKey : Option Text) : Handler CompilationResult :=
  try
    match cacheKey with
    | none => compiledResponse env
    | some cacheKey => compileFn env now cacheKey
  catch error => pure (.failed error)

def compileLocally (env : Environment) (now : Nat) (cacheKey : Option Text) : Handler Response := do
  let result ← compilationPromise env now cacheKey
  return respond result

def Environment.read (env : Environment) (cache : Cache) (now : Nat) (cacheKey : Text) : CacheRead :=
  match env.readFails with
  | some error => .failed error
  | none => cache.get now cacheKey

def fallback (env : Environment) (now : Nat) (cacheKey : Text) : Handler Response := do
  match env.pending with
  | some result => return .success { result with deduplicated := true } .deduplicated
  | none =>
    match env.read (← get).cache now cacheKey with
    | .hit result => return .success { result with cached := true } .cacheHit
    | .failed error => throw error
    | .missed | .unreadable => compileLocally env now (some cacheKey)

def handleCompileJson (env : Environment) (now : Nat) (cacheKey : Option Text) : Handler Response :=
  match cacheKey with
  | none => compileLocally env now none
  | some cacheKey =>
    match env.coordinator with
    | none => fallback env now cacheKey
    | some answers =>
      try coordinated env now cacheKey answers
      catch _ => fallback env now cacheKey

section Runs
variable {env : Environment} {answers : Answers} {now : Nat} {cacheKey : Text} {p q : Progress}
  {compile : Handler CompilationResult}

def Progress.cached (env : Environment) (now : Nat) (cacheKey : Text) (response : CompilationResult) (p : Progress) : Progress :=
  if env.putFails then p else p.put cacheKey ⟨some response,now+cacheTtl⟩

theorem compiledResponse_ok (compiled : env.compiler = .ok rules) :
    (compiledResponse env).from p = (.ok (.compiled rules (env.dates p.executions)),p.ran) := by
  unfold compiledResponse compileWithMetrics
  rw [compiled]
  rfl

theorem compiledResponse_error (failed : env.compiler = .error error) : (compiledResponse env).from p = (.error error,p.ran) := by
  unfold compiledResponse compileWithMetrics
  rw [failed]
  rfl

theorem compileFn_ok (compiled : env.compiler = .ok rules) :
    (compileFn env now cacheKey).from p =
      (.ok (.compiled rules (env.dates p.executions)),p.ran.cached env now cacheKey (.compiled rules (env.dates p.executions))) := by
  apply (bind_ok (compiledResponse_ok compiled)).trans
  unfold cacheResponse Progress.cached
  cases env.putFails <;> rfl

theorem compileFn_error (failed : env.compiler = .error error) : (compileFn env now cacheKey).from p = (.error error,p.ran) :=
  bind_error (compiledResponse_error failed)

-- What a Worker without the lock makes of the answer to /wait.
def Answers.waited (answers : Answers) : Except Thrown CompilationResult :=
  answers.wait.bind fun
    | .ok result => .ok { result with deduplicated := true }
    | .notOk _ error => .error (waitError error)

theorem coordinate_lost (lost : answers.acquire = .error error) :
    (coordinateCompilationWithDO answers compile).from p = (.error error,p) := by
  apply bind_error
  rw [lost]
  rfl

theorem coordinate_refused (refused : answers.acquire = .ok false) :
    (coordinateCompilationWithDO answers compile).from p = (answers.waited,p) := by
  unfold coordinateCompilationWithDO Answers.waited
  rw [refused]
  cases answers.wait with
  | error error => rfl
  | ok answer => cases answer <;> rfl

theorem coordinate_completed (granted : answers.acquire = .ok true) (compiled : compile.from p = (.ok result,q))
    (completed : answers.complete = none) : (coordinateCompilationWithDO answers compile).from p = (.ok result,q) := by
  unfold coordinateCompilationWithDO
  rw [granted,completed]
  exact catch_ok ((bind_ok compiled).trans rfl)

theorem notify_throw (failure : Option Thrown) (error : Thrown) :
    ∃ thrown, (do notify failure; throw error : Handler α).from p = (.error thrown,p) := by
  cases failure with
  | none => exact ⟨error,rfl⟩
  | some lost => exact ⟨lost,rfl⟩

theorem coordinate_failed (granted : answers.acquire = .ok true) (failed : compile.from p = (.error error,q)) :
    ∃ thrown, (coordinateCompilationWithDO answers compile).from p = (.error thrown,q) := by
  obtain ⟨thrown,rethrown⟩ := @notify_throw q CompilationResult answers.fail error
  refine ⟨thrown,Eq.trans ?_ rethrown⟩
  unfold coordinateCompilationWithDO
  rw [granted]
  exact catch_error (bind_error failed)

theorem coordinate_unanswered (granted : answers.acquire = .ok true) (compiled : compile.from p = (.ok result,q))
    (unanswered : answers.complete = some error) :
    ∃ thrown, (coordinateCompilationWithDO answers compile).from p = (.error thrown,q) := by
  obtain ⟨thrown,rethrown⟩ := @notify_throw q CompilationResult answers.fail error
  refine ⟨thrown,Eq.trans ?_ rethrown⟩
  unfold coordinateCompilationWithDO
  rw [granted,unanswered]
  exact catch_error ((bind_ok compiled).trans rfl)

def compiledSuccess (env : Environment) (rules : List Text) (p : Progress) : Response :=
  .success (.compiled rules (env.dates p.executions)) .cacheMiss

theorem coordinated_lost (lost : answers.acquire = .error error) :
    (coordinated env now cacheKey answers).from p = (.error error,p) := bind_error (coordinate_lost lost)

theorem coordinated_refused (refused : answers.acquire = .ok false) :
    (coordinated env now cacheKey answers).from p = (answers.waited.map (.success · .deduplicated),p) := by
  have call := @coordinate_refused answers p (compileFn env now cacheKey) refused
  unfold Answers.waited at call ⊢
  cases waited : answers.wait with
  | error error =>
    rw [waited] at call
    exact bind_error call
  | ok answer =>
    rw [waited] at call
    cases answer with
    | notOk status error => exact bind_error call
    | ok result => exact (bind_ok call).trans rfl

theorem coordinated_completed (granted : answers.acquire = .ok true) (compiled : env.compiler = .ok rules)
    (completed : answers.complete = none) :
    (coordinated env now cacheKey answers).from p = (.ok (compiledSuccess env rules p),
      p.ran.cached env now cacheKey (.compiled rules (env.dates p.executions))) :=
  (bind_ok (coordinate_completed granted (compileFn_ok compiled) completed)).trans rfl

theorem coordinated_failed (granted : answers.acquire = .ok true) (failed : env.compiler = .error error) :
    ∃ thrown, (coordinated env now cacheKey answers).from p = (.error thrown,p.ran) := by
  obtain ⟨thrown,call⟩ := coordinate_failed granted (@compileFn_error env now cacheKey p error failed)
  exact ⟨thrown,bind_error call⟩

theorem coordinated_unanswered (granted : answers.acquire = .ok true) (compiled : env.compiler = .ok rules)
    (unanswered : answers.complete = some error) :
    ∃ thrown, (coordinated env now cacheKey answers).from p = (.error thrown,
      p.ran.cached env now cacheKey (.compiled rules (env.dates p.executions))) := by
  obtain ⟨thrown,call⟩ := coordinate_unanswered granted (@compileFn_ok env now cacheKey p rules compiled) unanswered
  exact ⟨thrown,bind_error call⟩

theorem handle_answered (present : env.coordinator = some answers)
    (answered : (coordinated env now cacheKey answers).from p = (.ok response,q)) :
    (handleCompileJson env now (some cacheKey)).from p = (.ok response,q) := by
  unfold handleCompileJson
  rw [present]
  exact catch_ok answered

theorem handle_fallen (present : env.coordinator = some answers)
    (fallen : (coordinated env now cacheKey answers).from p = (.error error,q)) :
    (handleCompileJson env now (some cacheKey)).from p = (fallback env now cacheKey).from q := by
  unfold handleCompileJson
  rw [present]
  exact catch_error fallen

theorem handle_alone (absent : env.coordinator = none) :
    (handleCompileJson env now (some cacheKey)).from p = (fallback env now cacheKey).from p := by
  unfold handleCompileJson
  rw [absent]

theorem cached_executions (response : CompilationResult) (p : Progress) :
    (p.cached env now cacheKey response).executions = p.executions := by
  unfold Progress.cached
  split
  · rfl
  · rfl

-- The promise never rejects, and stands for one execution.
theorem compilationPromise_once (env : Environment) (now : Nat) (cacheKey : Option Text) (p : Progress) :
    ∃ result q, (compilationPromise env now cacheKey).from p = (.ok result,q) ∧ q.executions = p.executions+1 := by
  cases compiled : env.compiler with
  | error error =>
    refine ⟨.failed error,p.ran,?_,rfl⟩
    cases cacheKey with
    | none => exact catch_error (compiledResponse_error compiled)
    | some cacheKey => exact catch_error (compileFn_error compiled)
  | ok rules =>
    cases cacheKey with
    | none => exact ⟨_,_,catch_ok (compiledResponse_ok compiled),rfl⟩
    | some cacheKey => exact ⟨_,_,catch_ok (compileFn_ok compiled),cached_executions _ _⟩

theorem compileLocally_once (env : Environment) (now : Nat) (cacheKey : Option Text) (p : Progress) :
    ((compileLocally env now cacheKey).from p).2.executions = p.executions+1 := by
  obtain ⟨result,q,promise,once⟩ := compilationPromise_once env now cacheKey p
  unfold compileLocally
  rw [bind_ok promise]
  exact once

-- What the fallback answers without compiling, where it finds anything.
def foundLocally (env : Environment) (cache : Cache) (now : Nat) (cacheKey : Text) : Option (Except Thrown Response) :=
  match env.pending with
  | some result => some (.ok (.success { result with deduplicated := true } .deduplicated))
  | none =>
    match env.read cache now cacheKey with
    | .hit result => some (.ok (.success { result with cached := true } .cacheHit))
    | .failed error => some (.error error)
    | .missed | .unreadable => none

theorem fallback_reads (idle : env.pending = none) :
    (fallback env now cacheKey).from p = (match env.read p.cache now cacheKey with
      | .hit result => pure (.success { result with cached := true } .cacheHit)
      | .failed error => throw error
      | .missed | .unreadable => compileLocally env now (some cacheKey) : Handler Response).from p := by
  unfold fallback
  rw [idle]
  rfl

theorem fallback_found (found : foundLocally env p.cache now cacheKey = some answer) :
    (fallback env now cacheKey).from p = (answer,p) := by
  unfold foundLocally at found
  cases pending : env.pending with
  | some result =>
    rw [pending] at found
    cases found
    unfold fallback
    rw [pending]
    rfl
  | none =>
    rw [fallback_reads pending]
    rw [pending] at found
    cases read : env.read p.cache now cacheKey with
    | hit result | failed error =>
      simp only [read] at found
      cases found
      rfl
    | missed | unreadable => simp [read] at found

theorem fallback_compiles (missing : foundLocally env p.cache now cacheKey = none) :
    (fallback env now cacheKey).from p = (compileLocally env now (some cacheKey)).from p := by
  unfold foundLocally at missing
  cases pending : env.pending with
  | some result => simp [pending] at missing
  | none =>
    rw [fallback_reads pending]
    rw [pending] at missing
    cases read : env.read p.cache now cacheKey with
    | hit result | failed error => simp [read] at missing
    | missed | unreadable => rfl

theorem fallback_executions (env : Environment) (now : Nat) (cacheKey : Text) (p : Progress) :
    ((fallback env now cacheKey).from p).2.executions =
      if (foundLocally env p.cache now cacheKey).isSome then p.executions else p.executions+1 := by
  cases found : foundLocally env p.cache now cacheKey with
  | none => exact (congrArg (·.2.executions) (fallback_compiles found)).trans (compileLocally_once env now (some cacheKey) p)
  | some answer => exact congrArg (·.2.executions) (fallback_found found)

-- Just after a response was put, it is found.
theorem put_found (env : Environment) (now : Nat) (cacheKey : Text) (cache : Cache) (response : CompilationResult) :
    (foundLocally env (cache.put cacheKey ⟨some response,now+cacheTtl⟩) now cacheKey).isSome = true := by
  have hit : (cache.put cacheKey ⟨some response,now+cacheTtl⟩).get now cacheKey = .hit response := by
    unfold Cache.get Cache.put
    rw [if_pos rfl]
    exact if_pos (Nat.lt_add_of_pos_right (by decide))
  unfold foundLocally Environment.read
  cases env.pending with
  | some result => rfl
  | none =>
    cases env.readFails with
    | some error => rfl
    | none =>
      simp only [hit]
      rfl

end Runs

def serve (sha256 : Text → Digest) (env : Environment) (now : Nat) (request : Request) (p : Progress) :
    Except Thrown Response × Progress :=
  (handleCompileJson env now (request.cacheKey sha256)).from p

-- The request was refused the lock, and the compilation it then waited for
-- failed with the message.
def WaitedForFailed (sha256 : Text → Digest) (env : Environment) (request : Request) (message : Text) : Prop :=
  (request.cacheKey sha256).isSome ∧ ∃ answers answer, env.coordinator = some answers ∧ answers.acquire = .ok false ∧
    poll (store (.fail (failBody message))) = some answer ∧ answers.wait = .ok answer

def Reports (message : Text) : Except Thrown Response → Prop
  | .ok (.success result _) => result.success = false ∧ result.error = some message
  | .ok (.serverError other) => other = message
  | .error _ => False

-- The holder of the lock ends in the fallback and has put nothing.
def LosesResult (env : Environment) (answers : Answers) : Prop :=
  (∃ error, env.compiler = .error error) ∨ (answers.complete.isSome = true ∧ env.putFails = true)

-- The fallback has an answer wherever it would else compile once more, and that
-- of the failed compilation where one was waited for.
def Spared (sha256 : Text → Digest) (env : Environment) (now : Nat) (request : Request) (cache : Cache) : Prop :=
  ∀ cacheKey answers, request.cacheKey sha256 = some cacheKey → env.coordinator = some answers →
    (answers.acquire = .ok true → LosesResult env answers → (foundLocally env cache now cacheKey).isSome = true) ∧
    ∀ message, answers.acquire = .ok false → answers.wait = .ok (.notOk 500 (failBody message)) →
      ∃ answer, foundLocally env cache now cacheKey = some answer ∧ Reports message answer

section Once
variable {sha256 : Text → Digest} {env : Environment} {now : Nat} {request : Request} {cache : Cache}
  {stored : List (Text × Entry)} {cacheKey : Text} {answers : Answers}

def OneCompilation (sha256 : Text → Digest) (env : Environment) (now : Nat) (request : Request) (p : Progress) : Prop :=
  (serve sha256 env now request p).2.executions ≤ 1 ∧
    ∀ message, WaitedForFailed sha256 env request message →
      (serve sha256 env now request p).2.executions = 0 ∧ Reports message (serve sha256 env now request p).1

-- Where no failed compilation was waited for, the number of executions decides.
theorem unwaited_exact (unwaited : ∀ message, ¬WaitedForFailed sha256 env request message) :
    OneCompilation sha256 env now request p ↔ (serve sha256 env now request p).2.executions ≤ 1 :=
  ⟨And.left,fun once => ⟨once,fun message waited => absurd waited (unwaited message)⟩⟩

theorem never_waited (never : ∀ answers, env.coordinator = some answers → answers.acquire ≠ .ok false) (message : Text) :
    ¬WaitedForFailed sha256 env request message := by
  intro waited
  obtain ⟨-,answers,answer,present,refused,-⟩ := waited
  exact never answers present refused

theorem fallback_once (env : Environment) (now : Nat) (cacheKey : Text) (p : Progress) :
    ((fallback env now cacheKey).from p).2.executions ≤ p.executions+1 := by
  rw [fallback_executions]
  split
  · exact Nat.le_succ _
  · exact Nat.le_refl _

theorem fallback_twice (ran : p.executions = 1) :
    ((fallback env now cacheKey).from p).2.executions ≤ 1 ↔ (foundLocally env p.cache now cacheKey).isSome = true := by
  rw [fallback_executions,ran]
  cases (foundLocally env p.cache now cacheKey).isSome <;> decide

theorem refused_exact (keyed : request.cacheKey sha256 = some cacheKey) (present : env.coordinator = some answers)
    (refused : answers.acquire = .ok false) :
    OneCompilation sha256 env now request ⟨0,cache,stored⟩ ↔
      ∀ message, answers.wait = .ok (.notOk 500 (failBody message)) →
        ∃ answer, foundLocally env cache now cacheKey = some answer ∧ Reports message answer := by
  have waits : ∀ message, WaitedForFailed sha256 env request message ↔ answers.wait = .ok (.notOk 500 (failBody message)) := by
    intro message
    constructor
    · intro waited
      obtain ⟨-,others,answer,same,-,polled,wait⟩ := waited
      cases present.symm.trans same
      cases polled
      exact wait
    · intro wait
      exact ⟨by rw [keyed]; rfl,answers,_,present,refused,rfl,wait⟩
  have call := @coordinated_refused env answers now cacheKey ⟨0,cache,stored⟩ refused
  unfold OneCompilation serve
  simp only [waits,keyed]
  cases waited : answers.waited with
  | ok result =>
    rw [waited] at call
    rw [handle_answered present call]
    constructor
    · intro one message wait
      unfold Answers.waited at waited
      rw [wait] at waited
      cases waited
    · intro found
      refine ⟨Nat.zero_le 1,?_⟩
      intro message wait
      unfold Answers.waited at waited
      rw [wait] at waited
      cases waited
  | error error =>
    rw [waited] at call
    rw [handle_fallen present call]
    constructor
    · intro one message wait
      obtain ⟨none,reported⟩ := one.2 message wait
      rw [fallback_executions] at none
      cases found : foundLocally env cache now cacheKey with
      | none => simp [found] at none
      | some answer =>
        rw [fallback_found found] at reported
        exact ⟨answer,rfl,reported⟩
    · intro found
      refine ⟨fallback_once env now cacheKey ⟨0,cache,stored⟩,?_⟩
      intro message wait
      obtain ⟨answer,located,reported⟩ := found message wait
      rw [@fallback_found env now cacheKey ⟨0,cache,stored⟩ answer located]
      exact ⟨rfl,reported⟩

theorem granted_exact (keyed : request.cacheKey sha256 = some cacheKey) (present : env.coordinator = some answers)
    (granted : answers.acquire = .ok true) :
    OneCompilation sha256 env now request ⟨0,cache,stored⟩ ↔
      (LosesResult env answers → (foundLocally env cache now cacheKey).isSome = true) := by
  have unwaited : ∀ others, env.coordinator = some others → others.acquire ≠ .ok false := by
    intro others same
    cases present.symm.trans same
    simp [granted]
  apply (unwaited_exact (never_waited unwaited)).trans
  unfold serve
  rw [keyed]
  cases compiled : env.compiler with
  | error error =>
    obtain ⟨thrown,call⟩ := @coordinated_failed env answers now cacheKey ⟨0,cache,stored⟩ error granted compiled
    rw [handle_fallen present call]
    exact (fallback_twice rfl).trans ⟨fun found _ => found,fun spared => spared (.inl ⟨error,compiled⟩)⟩
  | ok rules =>
    have kept : ∀ error, env.compiler ≠ .error error := by simp [compiled]
    cases completed : answers.complete with
    | none =>
      rw [handle_answered present (coordinated_completed granted compiled completed),cached_executions]
      refine ⟨?_,fun _ => Nat.le_refl 1⟩
      intro once loses
      rcases loses with ⟨error,failed⟩ | ⟨lost,-⟩
      · exact absurd failed (kept error)
      · simp [completed] at lost
    | some lost =>
      obtain ⟨thrown,call⟩ := @coordinated_unanswered env answers now cacheKey ⟨0,cache,stored⟩ rules lost granted compiled completed
      rw [handle_fallen present call]
      refine (fallback_twice (cached_executions _ _)).trans ?_
      unfold Progress.cached
      cases failed : env.putFails with
      | true => exact ⟨fun found _ => found,fun spared => spared (.inr ⟨by rw [completed]; rfl,failed⟩)⟩
      | false =>
        constructor
        · intro found loses
          rcases loses with ⟨error,thrown⟩ | ⟨-,unput⟩
          · exact absurd thrown (kept error)
          · rw [failed] at unput
            cases unput
        · intro spared
          exact put_found env now cacheKey cache _

theorem spared_parts (keyed : request.cacheKey sha256 = some cacheKey) (present : env.coordinator = some answers) :
    Spared sha256 env now request cache ↔
      (answers.acquire = .ok true → LosesResult env answers → (foundLocally env cache now cacheKey).isSome = true) ∧
      ∀ message, answers.acquire = .ok false → answers.wait = .ok (.notOk 500 (failBody message)) →
        ∃ answer, foundLocally env cache now cacheKey = some answer ∧ Reports message answer := by
  constructor
  · intro spared
    exact spared cacheKey answers keyed present
  · intro parts key others found bound
    cases keyed.symm.trans found
    cases present.symm.trans bound
    exact parts

-- A request with pre-fetched content has no key and compiles at once.
theorem keyless_once (keyless : request.cacheKey sha256 = none) :
    OneCompilation sha256 env now request ⟨0,cache,stored⟩ ∧ Spared sha256 env now request cache := by
  refine ⟨?_,?_⟩
  · unfold OneCompilation serve WaitedForFailed
    rw [keyless]
    refine ⟨Nat.le_of_eq (compileLocally_once env now none ⟨0,cache,stored⟩),?_⟩
    intro message waited
    cases waited.1
  · intro cacheKey answers found
    rw [keyless] at found
    cases found

theorem alone_once (keyed : request.cacheKey sha256 = some cacheKey) (absent : env.coordinator = none) :
    OneCompilation sha256 env now request ⟨0,cache,stored⟩ ∧ Spared sha256 env now request cache := by
  refine ⟨?_,?_⟩
  · apply (unwaited_exact (never_waited (by simp [absent]))).mpr
    unfold serve
    rw [keyed,handle_alone absent]
    exact fallback_once env now cacheKey ⟨0,cache,stored⟩
  · intro key answers found present
    rw [absent] at present
    cases present

theorem lost_once (keyed : request.cacheKey sha256 = some cacheKey) (present : env.coordinator = some answers)
    (lost : answers.acquire = .error error) : OneCompilation sha256 env now request ⟨0,cache,stored⟩ := by
  have unwaited : ∀ others, env.coordinator = some others → others.acquire ≠ .ok false := by
    intro others bound
    cases present.symm.trans bound
    simp [lost]
  apply (unwaited_exact (never_waited unwaited)).mpr
  unfold serve
  rw [keyed,handle_fallen present (coordinated_lost lost)]
  exact fallback_once env now cacheKey ⟨0,cache,stored⟩

theorem one_compilation_exact (sha256 : Text → Digest) (env : Environment) (now : Nat) (request : Request) (cache : Cache)
    (stored : List (Text × Entry)) :
    OneCompilation sha256 env now request ⟨0,cache,stored⟩ ↔ Spared sha256 env now request cache := by
  cases keyed : request.cacheKey sha256 with
  | none =>
    obtain ⟨once,spared⟩ := keyless_once keyed
    exact iff_of_true once spared
  | some cacheKey =>
    cases present : env.coordinator with
    | none =>
      obtain ⟨once,spared⟩ := alone_once keyed present
      exact iff_of_true once spared
    | some answers =>
      apply Iff.trans ?_ (spared_parts keyed present).symm
      cases acquired : answers.acquire with
      | error error =>
        apply iff_of_true (lost_once keyed present acquired)
        simp
      | ok granted =>
        cases granted with
        | true =>
          apply (granted_exact keyed present acquired).trans
          simp
        | false =>
          apply (refused_exact keyed present acquired).trans
          simp

end Once

-- Under the lock the compiler fails, and then once more in the fallback.
def unreachable : Environment where
  coordinator := some ⟨.ok true,.ok Coordinator.timeout,none,none⟩
  pending := none
  readFails := none
  putFails := false
  compiler := .error "HTTP 404".toList
  dates := fun _ => "2026-01-01T00:00:00.000Z".toList

def listRequest : Request := ⟨.object (oneSource "https://a.example/list.txt"),none⟩

theorem compiled_twice : ¬∀ sha256 env now request cache stored, OneCompilation sha256 env now request ⟨0,cache,stored⟩ := by
  intro always
  have once := (always (fun _ => listDigest) unreachable 0 listRequest (fun _ => none) []).1
  have twice : (serve (fun _ => listDigest) unreachable 0 listRequest ⟨0,fun _ => none,[]⟩).2.executions = 2 := rfl
  omega

end AdblockCompiler.CompileRequest
