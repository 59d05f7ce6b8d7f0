import AdblockCompiler.Schedules
import AdblockCompiler.JsText

-- The Worker-local fallback of the compile handlers: requests of one isolate
-- share the map pendingCompilations and are suspended at cache reads, while a
-- compilation runs and while its result is stored.
namespace AdblockCompiler.Pending
open JsText Schedules

structure CompilationResult where
  success : Bool
  rules : Option (List Text)
  ruleCount : Option Nat
  compiledAt : Option Text
  error : Option Text
  cached : Bool
  deduplicated : Bool
  deriving DecidableEq, Repr

def CompilationResult.compiled (rules : List Text) (compiledAt : Text) : CompilationResult :=
  ⟨true,some rules,some rules.length,some compiledAt,none,false,false⟩

def CompilationResult.failed (message : Text) : CompilationResult :=
  ⟨false,none,none,none,some message,false,false⟩

inductive Handler where
  | compileJson | compileBatch
  deriving DecidableEq, Repr

-- Where a request stands: at its cache read, behind another's promise, with its
-- own compilation running or its result being stored, or done. A rejected
-- request answers with an exception.
inductive Phase where
  | reading
  | joined (other : Nat)
  | compiling
  | storing (result : CompilationResult)
  | returned (result : CompilationResult)
  | rejected (error : Thrown)
  deriving DecidableEq, Repr

-- cacheKey is none for a request with pre-fetched content.
structure Request where
  handler : Handler
  cacheKey : Option Text
  phase : Phase
  deriving DecidableEq, Repr

-- The answer to COMPILATION_CACHE.get, with the decompression behind it.
inductive CacheRead where
  | missed | unreadable
  | hit (result : CompilationResult)
  | failed (error : Thrown)
  deriving DecidableEq, Repr

-- pendingCompilations: the promise of a key, by the request that made it.
abbrev PendingCompilations := Text → Option Nat

def PendingCompilations.set (pending : PendingCompilations) (cacheKey : Text) (promise : Nat) : PendingCompilations :=
  fun other => if other = cacheKey then some promise else pending other

def PendingCompilations.delete (pending : PendingCompilations) (cacheKey : Text) : PendingCompilations :=
  fun other => if other = cacheKey then none else pending other

structure State where
  pendingCompilations : PendingCompilations
  requests : List Request

def idle : State := ⟨fun _ => none,[]⟩

inductive Event where
  | request (handler : Handler) (cacheKey : Option Text)
  | read (i : Nat) (answer : CacheRead)
  | compiled (i : Nat) (outcome : Except Thrown CompilationResult)
  | stored (i : Nat)
  | joined (i : Nat)

-- From the lookup in the map to the first suspension.
def arrive (pending : PendingCompilations) (cacheKey : Option Text) : Phase :=
  match cacheKey with
  | none => .compiling
  | some cacheKey =>
    match pending cacheKey with
    | some promise => .joined promise
    | none => .reading

-- What a handler makes of an exception outside the compilation.
def rejection : Handler → Thrown → Phase
  | .compileJson,error => .rejected error
  | .compileBatch,error => .returned (.failed error)

def put (s : State) (i : Nat) (request : Request) : State := { s with requests := s.requests.set i request }

-- pendingCompilations.set and delete, where the request has a key.
def enter (pending : PendingCompilations) (request : Request) (promise : Nat) : PendingCompilations :=
  match request.cacheKey with
  | none => pending
  | some cacheKey => pending.set cacheKey promise

def leave (pending : PendingCompilations) (request : Request) : PendingCompilations :=
  match request.cacheKey with
  | none => pending
  | some cacheKey => pending.delete cacheKey

-- The finally block of the compilation, which deletes by key.
def finish (s : State) (i : Nat) (request : Request) (result : CompilationResult) : State :=
  ⟨leave s.pendingCompilations request,s.requests.set i { request with phase := .returned result }⟩

def readStep (s : State) (i : Nat) (request : Request) : CacheRead → State
  | .hit result => put s i { request with phase := .returned { result with cached := true } }
  | .failed error => put s i { request with phase := rejection request.handler error }
  | .missed | .unreadable =>
    ⟨enter s.pendingCompilations request i,s.requests.set i { request with phase := .compiling }⟩

def compiledStep (s : State) (i : Nat) (request : Request) : Except Thrown CompilationResult → State
  | .error message => finish s i request (.failed message)
  | .ok result =>
    match request.cacheKey with
    | none => finish s i request result
    | some _ => put s i { request with phase := .storing result }

def step (s : State) : Event → Option State
  | .request handler cacheKey =>
    some { s with requests := s.requests ++ [⟨handler,cacheKey,arrive s.pendingCompilations cacheKey⟩] }
  | .read i answer => do
    let request ← s.requests[i]?
    match request.phase with
    | .reading => some (readStep s i request answer)
    | _ => none
  | .compiled i outcome => do
    let request ← s.requests[i]?
    match request.phase with
    | .compiling => some (compiledStep s i request outcome)
    | _ => none
  | .stored i => do
    let request ← s.requests[i]?
    match request.phase with
    | .storing result => some (finish s i request result)
    | _ => none
  | .joined i => do
    let request ← s.requests[i]?
    match request.phase with
    | .joined other => do
      let promise ← s.requests[other]?
      match promise.phase with
      | .returned result => some (put s i { request with phase := .returned { result with deduplicated := true } })
      | _ => none
    | _ => none

-- A compilation of the key is running.
def Running (s : State) (cacheKey : Text) (i : Nat) : Prop :=
  ∃ request, s.requests[i]? = some request ∧ request.cacheKey = some cacheKey ∧ request.phase = .compiling

def AtMostOne (s : State) : Prop := ∀ cacheKey i j, Running s cacheKey i → Running s cacheKey j → i = j

-- The step of a compilation takes no entry from another that still runs.
def Spares (s t : State) : Prop :=
  ∀ cacheKey j, s.pendingCompilations cacheKey = some j → t.pendingCompilations cacheKey = none → ¬Running t cacheKey j

-- A request that goes on from its cache read to compile finds no compilation of
-- its key pending.
def undisturbed (s : State) : Event → Bool
  | .read i .missed | .read i .unreadable =>
    s.requests[i]?.all fun request => request.cacheKey.all fun cacheKey => (s.pendingCompilations cacheKey).isNone
  | _ => true

def Phase.Active : Phase → Prop
  | .compiling | .storing _ => True
  | _ => False

-- What a step does: a request arrives, moves on without touching the map, goes
-- on from its read to compile, or ends its compilation.
inductive Change (s : State) : Event → State → Prop where
  | arrived (handler : Handler) (cacheKey : Option Text) :
      Change s (.request handler cacheKey)
        { s with requests := s.requests ++ [⟨handler,cacheKey,arrive s.pendingCompilations cacheKey⟩] }
  | moved (found : s.requests[i]? = some request) (kept : phase.Active → request.phase.Active) :
      Change s event ⟨s.pendingCompilations,s.requests.set i { request with phase := phase }⟩
  | started (found : s.requests[i]? = some request) (reading : request.phase = .reading)
      (missed : answer = .missed ∨ answer = .unreadable) :
      Change s (.read i answer)
        ⟨enter s.pendingCompilations request i,s.requests.set i { request with phase := .compiling }⟩
  | finished (found : s.requests[i]? = some request) (active : request.phase.Active) (result : CompilationResult) :
      Change s event ⟨leave s.pendingCompilations request,s.requests.set i { request with phase := .returned result }⟩

theorem rejection_done (handler : Handler) (error : Thrown) : ¬(rejection handler error).Active := by
  cases handler <;> exact id

theorem step_cases (stepped : step s event = some t) : Change s event t := by
  cases event with
  | request handler cacheKey =>
    cases stepped
    exact .arrived handler cacheKey
  | read i answer =>
    obtain ⟨request,found,rest⟩ := Option.bind_eq_some_iff.mp stepped
    cases phase : request.phase with
    | reading =>
      simp only [phase,Option.some.injEq] at rest
      subst rest
      cases answer with
      | hit result => exact .moved found fun active => active.elim
      | failed error => exact .moved found fun active => absurd active (rejection_done request.handler error)
      | missed => exact .started found phase (.inl rfl)
      | unreadable => exact .started found phase (.inr rfl)
    | joined _ | compiling | storing _ | returned _ | rejected _ =>
      simp only [phase] at rest
      cases rest
  | compiled i outcome =>
    obtain ⟨request,found,rest⟩ := Option.bind_eq_some_iff.mp stepped
    cases phase : request.phase with
    | compiling =>
      simp only [phase,Option.some.injEq] at rest
      subst rest
      have active : request.phase.Active := phase ▸ trivial
      cases outcome with
      | error message => exact .finished found active (.failed message)
      | ok result =>
        cases key : request.cacheKey with
        | none =>
          have made : compiledStep s i request (.ok result) = finish s i request result := by simp only [compiledStep,key]
          rw [made]
          exact .finished found active result
        | some cacheKey =>
          have made : compiledStep s i request (.ok result) = put s i { request with phase := .storing result } := by
            simp only [compiledStep,key]
          rw [made]
          exact .moved found fun _ => active
    | reading | joined _ | storing _ | returned _ | rejected _ =>
      simp only [phase] at rest
      cases rest
  | stored i =>
    obtain ⟨request,found,rest⟩ := Option.bind_eq_some_iff.mp stepped
    cases phase : request.phase with
    | storing result =>
      simp only [phase,Option.some.injEq] at rest
      subst rest
      exact .finished found (phase ▸ trivial) result
    | reading | joined _ | compiling | returned _ | rejected _ =>
      simp only [phase] at rest
      cases rest
  | joined i =>
    obtain ⟨request,found,rest⟩ := Option.bind_eq_some_iff.mp stepped
    cases phase : request.phase with
    | joined other =>
      simp only [phase] at rest
      obtain ⟨promise,-,settled⟩ := Option.bind_eq_some_iff.mp rest
      cases answer : promise.phase with
      | returned result =>
        simp only [answer,Option.some.injEq] at settled
        subst settled
        exact .moved found fun active => active.elim
      | reading | joined _ | compiling | storing _ | rejected _ =>
        simp only [answer] at settled
        cases settled
    | reading | compiling | storing _ | returned _ | rejected _ =>
      simp only [phase] at rest
      cases rest

-- The map names the one active compilation of each key.
def Tracked (s : State) : Prop :=
  ∀ cacheKey i request, s.requests[i]? = some request → request.cacheKey = some cacheKey → request.phase.Active →
    s.pendingCompilations cacheKey = some i

theorem set_same (pending : PendingCompilations) (cacheKey : Text) (promise : Nat) :
    pending.set cacheKey promise cacheKey = some promise := if_pos rfl

theorem set_other (pending : PendingCompilations) (promise : Nat) (other : name ≠ cacheKey) :
    pending.set cacheKey promise name = pending name := if_neg other

theorem delete_other (pending : PendingCompilations) (other : name ≠ cacheKey) : pending.delete cacheKey name = pending name :=
  if_neg other

theorem arrive_idle (pending : PendingCompilations) (cacheKey : Text) : ¬(arrive pending (some cacheKey)).Active := by
  cases entry : pending cacheKey <;> simp [arrive,entry,Phase.Active]

theorem tracked_step (tracked : Tracked s) (stepped : step s event = some t) (calm : undisturbed s event = true) :
    Tracked t := by
  intro name j other
  cases step_cases stepped with
  | arrived handler cacheKey =>
    intro found key active
    cases found_append found with
    | inl old => exact tracked name j other old key active
    | inr new =>
      obtain ⟨-,rfl⟩ := new
      obtain rfl : cacheKey = some name := key
      exact absurd active (arrive_idle _ name)
  | moved found kept =>
    intro located key active
    cases found_set located with
    | inl here =>
      obtain ⟨rfl,rfl⟩ := here
      exact tracked name j _ found key (kept active)
    | inr elsewhere => exact tracked name j other elsewhere.2 key active
  | @started i request answer found reading missed =>
    intro located key active
    have free : ∀ cacheKey, request.cacheKey = some cacheKey → s.pendingCompilations cacheKey = none := by
      intro cacheKey same
      have asked : undisturbed s (.read i answer) = (s.pendingCompilations cacheKey).isNone := by
        rcases missed with rfl | rfl <;> simp only [undisturbed,found,Option.all_some,same]
      exact Option.isNone_iff_eq_none.mp (asked ▸ calm)
    unfold enter
    cases found_set located with
    | inl here =>
      obtain ⟨rfl,rfl⟩ := here
      rw [show request.cacheKey = some name from key]
      exact set_same _ _ _
    | inr elsewhere =>
      have entry := tracked name j other elsewhere.2 key active
      cases own : request.cacheKey with
      | none => exact entry
      | some cacheKey =>
        have differs : name ≠ cacheKey := by
          intro same
          rw [same,free cacheKey own] at entry
          cases entry
        exact (set_other _ _ differs).trans entry
  | @finished i request event found ended result =>
    intro located key active
    unfold leave
    cases found_set located with
    | inl here =>
      obtain ⟨-,rfl⟩ := here
      exact active.elim
    | inr elsewhere =>
      have entry := tracked name j other elsewhere.2 key active
      cases own : request.cacheKey with
      | none => exact entry
      | some cacheKey =>
        have differs : name ≠ cacheKey := by
          intro same
          have mine := tracked cacheKey i request found own ended
          rw [same,mine] at entry
          exact elsewhere.1 (Option.some.inj entry).symm
        exact (delete_other _ differs).trans entry

theorem tracked_one (tracked : Tracked s) : AtMostOne s := by
  intro cacheKey i j one two
  obtain ⟨request,found,key,running⟩ := one
  obtain ⟨other,located,same,also⟩ := two
  have first := tracked cacheKey i request found key (running ▸ trivial)
  have second := tracked cacheKey j other located same (also ▸ trivial)
  exact Option.some.inj (first.symm.trans second)

-- An entry is taken out by the compilation it names.
theorem tracked_spares (tracked : Tracked s) (stepped : step s event = some t) : Spares s t := by
  intro name j entry gone running
  cases step_cases stepped with
  | arrived handler cacheKey =>
    rw [entry] at gone
    cases gone
  | moved found kept =>
    rw [entry] at gone
    cases gone
  | @started i request answer found reading missed =>
    unfold enter at gone
    cases own : request.cacheKey with
    | none => simp [own,entry] at gone
    | some cacheKey =>
      simp only [own] at gone
      by_cases same : name = cacheKey
      · rw [same,set_same] at gone
        cases gone
      · rw [set_other _ _ same,entry] at gone
        cases gone
  | @finished i request event found ended result =>
    unfold leave at gone
    cases own : request.cacheKey with
    | none => simp [own,entry] at gone
    | some cacheKey =>
      simp only [own] at gone
      by_cases same : name = cacheKey
      · subst same
        obtain rfl : i = j := Option.some.inj ((tracked name i request found own ended).symm.trans entry)
        obtain ⟨other,located,-,compiling⟩ := running
        cases found_set located with
        | inl here =>
          obtain ⟨-,rfl⟩ := here
          cases compiling
        | inr elsewhere => exact elsewhere.1 rfl
      · rw [delete_other _ same,entry] at gone
        cases gone

-- As long as no request goes on to compile a key that is pending by then, one
-- compilation of a key runs at a time and none loses its entry to another.
theorem compilations_deduplicated (ran : run (guarded undisturbed step) idle events = some s) :
    AtMostOne s ∧ ∀ event t, step s event = some t → Spares s t := by
  have start : Tracked idle := by
    intro cacheKey i request found
    simp [idle] at found
  have tracked : Tracked s := by
    refine run_keeps Tracked ?_ start ran
    intro s event t tracked stepped
    obtain ⟨calm,plain⟩ := guarded_step.mp stepped
    exact tracked_step tracked plain calm
  exact ⟨tracked_one tracked,fun _ _ => tracked_spares tracked⟩

def sameList : List Event := [.request .compileJson (some "k".toList),.request .compileBatch (some "k".toList)]

theorem sameList_deduplicated : ∃ s, run (guarded undisturbed step) idle (sameList ++ [.read 0 .missed]) = some s ∧
    AtMostOne s ∧ ∀ event t, step s event = some t → Spares s t := by
  have ran : run (guarded undisturbed step) idle (sameList ++ [.read 0 .missed]) = some _ := rfl
  exact ⟨_,ran,compilations_deduplicated ran⟩

-- Two requests look the key up before either has read the cache: both compile.
theorem both_compile : ¬∀ events s, run step idle events = some s →
    AtMostOne s ∧ ∀ event t, step s event = some t → Spares s t := by
  intro always
  have one := (always (sameList ++ [.read 0 .missed,.read 1 .missed]) _ rfl).1
  have same := one "k".toList 0 1 ⟨_,rfl,rfl,rfl⟩ ⟨_,rfl,rfl,rfl⟩
  cases same

end AdblockCompiler.Pending
