import AdblockCompiler.CircuitBreaker
import AdblockCompiler.Hosts
import AdblockCompiler.Pipeline
import AdblockCompiler.Retries

-- fetchUrl of FilterDownloader: its attempts, the two places that decide on a
-- retry, and the circuit breaker around them.
namespace AdblockCompiler.FetchRetry
open JsText Hosts Retries

-- What a rejection carries of an Error, and a NetworkError besides.
structure Fault where
  name : Text
  message : Text
  url : Option Text := none
  statusCode : Option Nat := none
  retryable : Bool := false
  deriving DecidableEq, Repr

def NetworkError (message url : Text) : Fault := { name := "NetworkError".toList, message, url := some url }

def httpError (url : Text) (statusCode : Nat) (statusText : Text) : Fault :=
  { NetworkError ("HTTP ".toList ++ decimal statusCode ++ ": ".toList ++ statusText) url with
    statusCode := some statusCode
    retryable := statusCode ≥ 500 || statusCode = 429 }

def timeoutError (url : Text) (timeoutMs : Nat) : Fault :=
  { NetworkError ("Request timeout after ".toList ++ decimal timeoutMs ++ "ms".toList) url with retryable := true }

-- text() may reject as the request may.
structure Response where
  status : Nat
  statusText : Text
  text : Except Fault Text

def Response.ok (response : Response) : Bool := 200 ≤ response.status && response.status ≤ 299

-- What one request meets. A request that its timer aborts is a rejection.
inductive Behaviour where
  | rejected (error : Fault)
  | responded (response : Response)

structure DownloaderOptions where
  timeout : Nat
  maxRetries : ℚ
  retryDelay : ℚ
  allowEmptyResponse : Bool

section Fetching
variable (options : DownloaderOptions) (url : Text)

def isTimeoutError (error : Fault) : Bool := error.name = "AbortError".toList || Pipeline.includes error.message "aborted".toList

def backoff (attempt : Nat) (random : ℚ) : ℚ :=
  let backoffDelay := options.retryDelay*2^attempt
  backoffDelay+random*(3/10)*backoffDelay

def isClientError (error : Fault) : Bool := Pipeline.includes error.message "HTTP 4".toList

def lastErrorOf (error : Fault) : Fault := if isTimeoutError error then timeoutError url options.timeout else error

-- The catch block, and the wait after it.
def caught (attempt : Nat) (random : ℚ) (error : Fault) : Turn Fault ℚ Text :=
  let lastError := lastErrorOf options url error
  if !isTimeoutError error && isClientError lastError then .settled (.error lastError)
  else if (attempt : ℚ) = options.maxRetries then .settled (.error lastError)
  else .failed lastError (backoff options attempt random)

def emptyResponse : Fault := NetworkError "Empty response received".toList url

def attemptOnce (attempt : Nat) (random : ℚ) : Behaviour → Turn Fault ℚ Text
  | .rejected error => caught options url attempt random error
  | .responded response =>
    if !response.ok then
      let error := httpError url response.status response.statusText
      let shouldRetry := response.status ≥ 500 || response.status = 429
      if !shouldRetry || (attempt : ℚ) = options.maxRetries then caught options url attempt random error
      else .failed error (backoff options attempt random)
    else
      match response.text with
      | .error error => caught options url attempt random error
      | .ok text =>
        if text = [] ∧ !options.allowEmptyResponse then caught options url attempt random (emptyResponse url)
        else .settled (.ok text)

-- server and random give what the n-th request meets and draws.
def fetchFn (server : Nat → Behaviour) (random : Nat → ℚ) : Outcome Fault ℚ Text :=
  retry (fun attempt => attemptOnce options url attempt (random attempt) (server attempt))
    (·.getD (NetworkError "Failed to fetch URL after retries".toList url)) options.maxRetries

-- The breaker of the URL as the call finds it, where breakers are enabled.
abbrev Gate := Option (CircuitBreaker.Breaker × Int)

def openRefusal (error : CircuitBreaker.CircuitBreakerOpenError) : Fault :=
  NetworkError ("Circuit breaker is OPEN for ".toList ++ url ++ ": ".toList ++ error.message) url

def fetchUrl (gate : Gate) (server : Nat → Behaviour) (random : Nat → ℚ) : Outcome Fault ℚ Text :=
  match gate with
  | none => fetchFn options url server random
  | some (breaker,now) =>
    match CircuitBreaker.enter breaker now with
    | .error error => ⟨0,[],.error (openRefusal url error)⟩
    | .ok _ => fetchFn options url server random

-- What the policy says of one behaviour: a body to return, or a response that
-- is not to be retried; none where another attempt is due.
def verdict : Behaviour → Option (Except Fault Text)
  | .rejected _ => none
  | .responded response =>
    if response.ok then
      match response.text with
      | .error _ => none
      | .ok text => if text = [] ∧ !options.allowEmptyResponse then none else some (.ok text)
    else if response.status ≥ 500 || response.status = 429 then none
    else some (.error (httpError url response.status response.statusText))

-- The first behaviour with a verdict decides the call, and nothing is requested
-- after it.
structure Follows (server : Nat → Behaviour) (ran : Outcome Fault ℚ Text) : Prop where
  bounded : (ran.attempts : ℚ) ≤ options.maxRetries+1
  decided : ∀ (k : Nat) result, (k : ℚ) ≤ options.maxRetries → (∀ i < k, verdict options url (server i) = none) →
    verdict options url (server k) = some result → ran.attempts = k+1 ∧ ran.result = result
  undecided : (∀ k : Nat, (k : ℚ) ≤ options.maxRetries → verdict options url (server k) = none) → ∃ error, ran.result = .error error

-- A rejection whose text the catch block takes for that of a client error.
def mistaken (error : Fault) : Bool := !isTimeoutError error && isClientError error

def Mistaken : Behaviour → Prop
  | .rejected error => mistaken error = true
  | .responded response => response.ok = true ∧ ∃ error, response.text = .error error ∧ mistaken error = true

-- The two classifications agree on what decides the call and before it.
def Agrees (server : Nat → Behaviour) : Prop :=
  ∀ (k : Nat) result, (k : ℚ) ≤ options.maxRetries → (∀ i < k, verdict options url (server i) = none) →
    verdict options url (server k) = some result →
      (∀ i < k, ¬Mistaken (server i)) ∧
        ∀ error, result = .error error → isTimeoutError error = false ∧ (isClientError error = true ∨ options.maxRetries < k+1)

end Fetching

-- What a behaviour is, as far as the policy is concerned.
inductive Seen (options : DownloaderOptions) (url : Text) : Behaviour → Option (Except Fault Text) → Prop where
  | rejected (error : Fault) : Seen options url (.rejected error) none
  | unread {response : Response} {error : Fault} (good : response.ok = true) (read : response.text = .error error) : Seen options url (.responded response) none
  | empty {response : Response} (good : response.ok = true) (read : response.text = .ok []) (refused : options.allowEmptyResponse = false) :
      Seen options url (.responded response) none
  | body {response : Response} {text : Text} (good : response.ok = true) (read : response.text = .ok text) (full : text = [] → options.allowEmptyResponse = true) :
      Seen options url (.responded response) (some (.ok text))
  | transient {response : Response} (bad : response.ok = false) (again : response.status ≥ 500 ∨ response.status = 429) :
      Seen options url (.responded response) none
  | final {response : Response} (bad : response.ok = false) (final : ¬(response.status ≥ 500 ∨ response.status = 429)) :
      Seen options url (.responded response) (some (.error (httpError url response.status response.statusText)))

section Attempts
variable {options : DownloaderOptions} {url : Text} {attempt : Nat} {random : ℚ} {error : Fault} {behaviour : Behaviour}
  {response : Response}

theorem lastErrorOf_kept (patient : isTimeoutError error = false) : lastErrorOf options url error = error := by
  simp [lastErrorOf,patient]

theorem caught_mistaken (same : mistaken error = true) : caught options url attempt random error = .settled (.error error) := by
  obtain ⟨patient,reads⟩ : isTimeoutError error = false ∧ isClientError error = true := by simpa [mistaken] using same
  simp [caught,lastErrorOf_kept,patient,reads]

theorem caught_goes (other : mistaken error = false) : caught options url attempt random error =
    if (attempt : ℚ) = options.maxRetries then .settled (.error (lastErrorOf options url error))
    else .failed (lastErrorOf options url error) (backoff options attempt random) := by
  cases late : isTimeoutError error with
  | true => simp [caught,late]
  | false =>
    have reads : isClientError error = false := by simpa [mistaken,late] using other
    simp [caught,lastErrorOf_kept,late,reads]

theorem caught_fails (before : (attempt : ℚ) ≠ options.maxRetries) (other : mistaken error = false) :
    caught options url attempt random error = .failed (lastErrorOf options url error) (backoff options attempt random) := by
  rw [caught_goes other,if_neg before]

-- A catch block never settles a call with a body.
theorem caught_body : caught options url attempt random error ≠ .settled (.ok text) := by
  cases same : mistaken error with
  | true => simp [caught_mistaken same]
  | false =>
    rw [caught_goes same]
    split
    · simp
    · simp

theorem attempt_unread (good : response.ok = true) (read : response.text = .error error) :
    attemptOnce options url attempt random (.responded response) = caught options url attempt random error := by
  simp [attemptOnce,good,read]

theorem attempt_empty (good : response.ok = true) (read : response.text = .ok []) (refused : options.allowEmptyResponse = false) :
    attemptOnce options url attempt random (.responded response) = caught options url attempt random (emptyResponse url) := by
  simp [attemptOnce,good,read,refused]

theorem attempt_bad (bad : response.ok = false) : attemptOnce options url attempt random (.responded response) =
    if (response.status ≥ 500 ∨ response.status = 429) ∧ (attempt : ℚ) ≠ options.maxRetries then
      .failed (httpError url response.status response.statusText) (backoff options attempt random)
    else caught options url attempt random (httpError url response.status response.statusText) := by
  by_cases last : (attempt : ℚ) = options.maxRetries
  · simp [attemptOnce,bad,last]
  · by_cases again : response.status ≥ 500 ∨ response.status = 429
    · have asked : (response.status ≥ 500 || response.status = 429) = true := by simpa using again
      simp [attemptOnce,bad,last,again,asked]
    · have final : (response.status ≥ 500 || response.status = 429) = false := by simpa using again
      simp [attemptOnce,bad,again,final]

theorem verdict_seen (options : DownloaderOptions) (url : Text) (behaviour : Behaviour) :
    Seen options url behaviour (verdict options url behaviour) := by
  cases behaviour with
  | rejected error => exact .rejected error
  | responded response =>
    cases good : response.ok with
    | true =>
      cases read : response.text with
      | error error =>
        have none : verdict options url (.responded response) = none := by simp [verdict,good,read]
        exact none ▸ .unread good read
      | ok text =>
        by_cases empty : text = [] ∧ options.allowEmptyResponse = false
        · obtain ⟨rfl,refused⟩ := empty
          have none : verdict options url (.responded response) = none := by simp [verdict,good,read,refused]
          exact none ▸ .empty good read refused
        · have some_ : verdict options url (.responded response) = some (.ok text) := by simp [verdict,good,read,empty]
          exact some_ ▸ .body good read (by simpa using empty)
    | false =>
      by_cases again : response.status ≥ 500 ∨ response.status = 429
      · have asked : (response.status ≥ 500 || response.status = 429) = true := by simpa using again
        have none : verdict options url (.responded response) = none := by simp [verdict,good,asked]
        exact none ▸ .transient good again
      · have some_ : verdict options url (.responded response) = some (.error (httpError url response.status response.statusText)) := by
          have final : (response.status ≥ 500 || response.status = 429) = false := by simpa using again
          simp [verdict,good,final]
        exact some_ ▸ .final good again

theorem attempt_body (decided : verdict options url behaviour = some (.ok text)) :
    attemptOnce options url attempt random behaviour = .settled (.ok text) := by
  have seen := verdict_seen options url behaviour
  rw [decided] at seen
  cases seen with
  | body good read full =>
    have kept : ¬(text = [] ∧ options.allowEmptyResponse = false) := fun both => by simp [full both.1] at both
    simp [attemptOnce,good,read,kept]

theorem attempt_refused (decided : verdict options url behaviour = some (.error error)) :
    attemptOnce options url attempt random behaviour = caught options url attempt random error := by
  have seen := verdict_seen options url behaviour
  rw [decided] at seen
  cases seen with
  | final bad final => rw [attempt_bad bad,if_neg (fun both => final both.1)]

theorem verdict_error (decided : verdict options url behaviour = some (.error error)) :
    ∃ response, behaviour = .responded response ∧ error = httpError url response.status response.statusText := by
  have seen := verdict_seen options url behaviour
  rw [decided] at seen
  cases seen with
  | @final response bad final => exact ⟨response,rfl,rfl⟩

theorem attempt_mistaken (same : Mistaken behaviour) :
    ∃ error, attemptOnce options url attempt random behaviour = .settled (.error error) := by
  cases behaviour with
  | rejected error => exact ⟨error,caught_mistaken same⟩
  | responded response =>
    obtain ⟨good,error,read,same⟩ := same
    exact ⟨error,(attempt_unread good read).trans (caught_mistaken same)⟩

theorem attempt_fails (undecided : verdict options url behaviour = none) (before : (attempt : ℚ) ≠ options.maxRetries)
    (other : ¬Mistaken behaviour) : Fails (attemptOnce options url attempt random behaviour) := by
  have seen := verdict_seen options url behaviour
  rw [undecided] at seen
  cases seen with
  | rejected error =>
    rw [attemptOnce,caught_fails before (Bool.eq_false_iff.mpr other)]
    trivial
  | @unread response error good read =>
    have kept : mistaken error = false := Bool.eq_false_iff.mpr fun same => other ⟨good,error,read,same⟩
    rw [attempt_unread good read,caught_fails before kept]
    trivial
  | empty good read refused =>
    have kept : mistaken (emptyResponse url) = false := rfl
    rw [attempt_empty good read refused,caught_fails before kept]
    trivial
  | transient bad again =>
    rw [attempt_bad bad,if_pos ⟨again,before⟩]
    trivial

theorem attempt_bodiless (undecided : verdict options url behaviour = none) :
    attemptOnce options url attempt random behaviour ≠ .settled (.ok text) := by
  have seen := verdict_seen options url behaviour
  rw [undecided] at seen
  cases seen with
  | rejected error => exact caught_body
  | unread good read =>
    rw [attempt_unread good read]
    exact caught_body
  | empty good read refused =>
    rw [attempt_empty good read refused]
    exact caught_body
  | transient bad again =>
    rw [attempt_bad bad]
    split
    · simp
    · exact caught_body

end Attempts

section Runs
variable {options : DownloaderOptions} {url : Text} {server : Nat → Behaviour} {random : Nat → ℚ}

theorem before_limit {i k : Nat} (within : (k : ℚ) ≤ options.maxRetries) (earlier : i < k) : (i : ℚ) ≠ options.maxRetries := by
  have below : (i : ℚ) < k := by exact_mod_cast earlier
  exact (below.trans_le within).ne

-- What is not mistaken before the deciding attempt fails, so it is reached.
theorem reaches {k : Nat} (within : (k : ℚ) ≤ options.maxRetries) (undecided : ∀ i < k, verdict options url (server i) = none)
    (kept : ∀ i < k, ¬Mistaken (server i)) : ∀ i < k, Fails (attemptOnce options url i (random i) (server i)) :=
  fun i earlier => attempt_fails (undecided i earlier) (before_limit within earlier) (kept i earlier)

theorem fetch_bounded (nonneg : 0 ≤ options.maxRetries) :
    ((fetchFn options url server random).attempts : ℚ) ≤ options.maxRetries+1 := by
  have bound : ((fetchFn options url server random).attempts : ℚ) ≤ turns options.maxRetries := by
    exact_mod_cast retry_bound
  exact bound.trans (turns_bound nonneg)

theorem fetch_undecided (undecided : ∀ k : Nat, (k : ℚ) ≤ options.maxRetries → verdict options url (server k) = none) :
    ∃ error, (fetchFn options url server random).result = .error error := by
  rcases turns_cases (fun attempt => attemptOnce options url attempt (random attempt) (server attempt)) options.maxRetries with
    ⟨k,result,within,failing,settles⟩ | failing
  · cases result with
    | ok text => exact absurd settles (attempt_bodiless (undecided k within))
    | error error => exact ⟨error,(retry_stops failing settles within).2⟩
  · exact ⟨_,(retry_ends failing).2⟩

theorem fetch_stops {k : Nat} (within : (k : ℚ) ≤ options.maxRetries) (undecided : ∀ i < k, verdict options url (server i) = none)
    (kept : ∀ i < k, ¬Mistaken (server i)) (settles : attemptOnce options url k (random k) (server k) = .settled result) :
    (fetchFn options url server random).attempts = k+1 ∧ (fetchFn options url server random).result = result :=
  retry_stops (reaches within undecided kept) settles within

theorem fetch_body {k : Nat} (within : (k : ℚ) ≤ options.maxRetries) (undecided : ∀ i < k, verdict options url (server i) = none)
    (kept : ∀ i < k, ¬Mistaken (server i)) (decided : verdict options url (server k) = some (.ok text)) :
    (fetchFn options url server random).attempts = k+1 ∧ (fetchFn options url server random).result = .ok text :=
  fetch_stops within undecided kept (attempt_body decided)

-- Past the last attempt the error it left is thrown.
theorem fetch_last {k : Nat} (within : (k : ℚ) ≤ options.maxRetries) (undecided : ∀ i < k, verdict options url (server i) = none)
    (kept : ∀ i < k, ¬Mistaken (server i)) (last : options.maxRetries < k+1)
    (fails : attemptOnce options url k (random k) (server k) = .failed error wait) :
    (fetchFn options url server random).attempts = k+1 ∧ (fetchFn options url server random).result = .error error := by
  have spent : turns options.maxRetries = k+1 := by
    have one : k < turns options.maxRetries := lt_turns.mpr within
    have two : ¬k+1 < turns options.maxRetries := fun more => by
      have bound := lt_turns.mp more
      rw [Nat.cast_succ] at bound
      exact absurd last (not_lt.mpr bound)
    omega
  have failing : ∀ i < turns options.maxRetries, Fails (attemptOnce options url i (random i) (server i)) := by
    intro i small
    rcases Nat.lt_or_eq_of_le (Nat.le_of_lt_succ (spent ▸ small)) with earlier | rfl
    · exact reaches within undecided kept i earlier
    · rw [fails]
      trivial
  have ends : (fetchFn options url server random).attempts = turns options.maxRetries ∧ _ := retry_ends failing
  rw [spent,left,fails] at ends
  exact ends

theorem fetch_goes_on {k : Nat} (failing : ∀ i ≤ k, Fails (attemptOnce options url i (random i) (server i)))
    (more : ((k+1 : Nat) : ℚ) ≤ options.maxRetries) : k+1 < (fetchFn options url server random).attempts := by
  rcases turns_cases (fun attempt => attemptOnce options url attempt (random attempt) (server attempt)) options.maxRetries with
    ⟨later,result,within,before,settles⟩ | all
  · have attempts : (fetchFn options url server random).attempts = later+1 := (retry_stops before settles within).1
    have after : k < later := by
      by_contra early
      have fails := failing later (Nat.le_of_not_lt early)
      rw [settles] at fails
      exact fails
    omega
  · have attempts : (fetchFn options url server random).attempts = turns options.maxRetries := (retry_ends all).1
    rw [attempts]
    exact lt_turns.mpr more

theorem fetch_refused {k : Nat} (within : (k : ℚ) ≤ options.maxRetries) (undecided : ∀ i < k, verdict options url (server i) = none)
    (kept : ∀ i < k, ¬Mistaken (server i)) (decided : verdict options url (server k) = some (.error error))
    (patient : isTimeoutError error = false) (agrees : isClientError error = true ∨ options.maxRetries < k+1) :
    (fetchFn options url server random).attempts = k+1 ∧ (fetchFn options url server random).result = .error error := by
  have turn : attemptOnce options url k (random k) (server k) = caught options url k (random k) error := attempt_refused decided
  cases same : mistaken error with
  | true =>
    rw [caught_mistaken same] at turn
    exact fetch_stops within undecided kept turn
  | false =>
    have unread : isClientError error = false := by simpa [mistaken,patient] using same
    have last : options.maxRetries < k+1 := agrees.resolve_left (by simp [unread])
    rw [caught_goes same,lastErrorOf_kept patient] at turn
    split at turn
    · exact fetch_stops within undecided kept turn
    · exact fetch_last within undecided kept last turn

-- The first behaviour that is mistaken for a client error ends the call early.
theorem fetch_keeps {k : Nat} (within : (k : ℚ) ≤ options.maxRetries) (undecided : ∀ i < k, verdict options url (server i) = none)
    (attempts : (fetchFn options url server random).attempts = k+1) : ∀ i < k, ¬Mistaken (server i) := by
  by_contra some_
  push Not at some_
  classical
  obtain ⟨earlier,same⟩ := Nat.find_spec some_
  have below : ((Nat.find some_ : Nat) : ℚ) ≤ options.maxRetries := (Nat.cast_le.mpr earlier.le).trans within
  obtain ⟨error,settles⟩ := attempt_mistaken same
  have stops : (fetchFn options url server random).attempts = Nat.find some_+1 := by
    refine (fetch_stops below (fun i less => undecided i (less.trans earlier)) ?_ settles).1
    intro i less bad
    exact Nat.find_min some_ less ⟨less.trans earlier,bad⟩
  omega

theorem fetch_reads {k : Nat} (within : (k : ℚ) ≤ options.maxRetries) (undecided : ∀ i < k, verdict options url (server i) = none)
    (decided : verdict options url (server k) = some (.error error))
    (attempts : (fetchFn options url server random).attempts = k+1) (result : (fetchFn options url server random).result = .error error) :
    isTimeoutError error = false ∧ (isClientError error = true ∨ options.maxRetries < k+1) := by
  have kept := fetch_keeps within undecided attempts
  have turn : attemptOnce options url k (random k) (server k) = caught options url k (random k) error := attempt_refused decided
  -- Where the catch block lets the loop go on, the limit is reached.
  have ends (wait : ℚ) (fault : Fault) (fails : attemptOnce options url k (random k) (server k) = .failed fault wait) :
      options.maxRetries < k+1 := by
    by_contra more
    have next : ((k+1 : Nat) : ℚ) ≤ options.maxRetries := by
      rw [Nat.cast_succ]
      exact not_lt.mp more
    have failing : ∀ i ≤ k, Fails (attemptOnce options url i (random i) (server i)) := by
      intro i small
      rcases Nat.lt_or_eq_of_le small with earlier | rfl
      · exact reaches within undecided kept i earlier
      · rw [fails]
        trivial
    exact absurd (fetch_goes_on failing next) (by omega)
  have patient : isTimeoutError error = false := by
    by_contra late
    rw [Bool.not_eq_false] at late
    have other : mistaken error = false := by simp [mistaken,late]
    have timeout : lastErrorOf options url error = timeoutError url options.timeout := by simp [lastErrorOf,late]
    obtain ⟨response,-,status⟩ := verdict_error decided
    have differs : timeoutError url options.timeout ≠ error := by
      rw [status]
      intro same
      cases congrArg Fault.statusCode same
    rw [caught_goes other,timeout] at turn
    split at turn
    · have stops := (fetch_stops within undecided kept turn).2
      exact differs (Except.error.inj (stops.symm.trans result))
    · have stops := (fetch_last within undecided kept (ends _ _ turn) turn).2
      exact differs (Except.error.inj (stops.symm.trans result))
  refine ⟨patient,?_⟩
  cases reads : isClientError error with
  | true => exact .inl rfl
  | false =>
    right
    have other : mistaken error = false := by simp [mistaken,reads]
    rw [caught_goes other] at turn
    split at turn
    · next last =>
      rw [← last]
      exact lt_add_one _
    · exact ends _ _ turn

theorem fetch_exact (nonneg : 0 ≤ options.maxRetries) :
    Follows options url server (fetchFn options url server random) ↔ Agrees options url server := by
  constructor
  · intro follows k result within undecided decided
    obtain ⟨attempts,result_⟩ := follows.decided k result within undecided decided
    refine ⟨fetch_keeps within undecided attempts,?_⟩
    intro error same
    subst same
    exact fetch_reads within undecided decided attempts result_
  · intro agrees
    refine ⟨fetch_bounded nonneg,?_,fetch_undecided⟩
    intro k result within undecided decided
    obtain ⟨kept,reads⟩ := agrees k result within undecided decided
    cases result with
    | ok text => exact fetch_body within undecided kept decided
    | error error =>
      obtain ⟨patient,last⟩ := reads error rfl
      exact fetch_refused within undecided kept decided patient last

-- An open breaker lets no request out. Where the call gets through, it follows
-- the policy exactly when the two classifications agree.
theorem policy_exact (options : DownloaderOptions) (nonneg : 0 ≤ options.maxRetries) (url : Text) (server : Nat → Behaviour)
    (random : Nat → ℚ) (gate : Gate) :
    (∀ breaker now error, gate = some (breaker,now) → CircuitBreaker.enter breaker now = .error error →
      fetchUrl options url gate server random = ⟨0,[],.error (openRefusal url error)⟩) ∧
    ((∀ breaker now, gate = some (breaker,now) → ∃ entered, CircuitBreaker.enter breaker now = .ok entered) →
      (Follows options url server (fetchUrl options url gate server random) ↔ Agrees options url server)) := by
  constructor
  · rintro breaker now error rfl refused
    rw [fetchUrl,refused]
  · intro admitted
    have through : fetchUrl options url gate server random = fetchFn options url server random := by
      cases gate with
      | none => rfl
      | some found =>
        obtain ⟨breaker,now⟩ := found
        obtain ⟨entered,lets⟩ := admitted breaker now rfl
        rw [fetchUrl,lets]
    rw [through]
    exact fetch_exact nonneg

end Runs

def twice : DownloaderOptions := ⟨30000,1,1000,false⟩

-- One response, then the same body for ever.
def recovering (first : Behaviour) : Nat → Behaviour
  | 0 => first
  | _+1 => .responded ⟨200,"OK".toList,.ok "||a.com^".toList⟩

def answer (status : Nat) (statusText : Text) : Behaviour := .responded ⟨status,statusText,.ok []⟩

theorem recovering_follows : Follows twice "https://a.com/".toList (recovering (answer 503 "Unavailable".toList))
    (fetchUrl twice "https://a.com/".toList none (recovering (answer 503 "Unavailable".toList)) fun _ => 0) := by
  refine ((policy_exact twice (by decide) "https://a.com/".toList (recovering (answer 503 "Unavailable".toList)) (fun _ => 0) none).2
    (fun _ _ none_ => nomatch none_)).mpr ?_
  intro k result within undecided decided
  cases k with
  | zero => exact absurd decided (by simp [recovering,answer,verdict,Response.ok])
  | succ k =>
    refine ⟨?_,?_⟩
    · intro i _ bad
      cases i with
      | zero => exact absurd bad (by simp [recovering,answer,Mistaken,Response.ok])
      | succ i => exact absurd bad (by simp [recovering,Mistaken])
    · rintro error rfl
      exact absurd decided (by simp [recovering,verdict,Response.ok,twice])

-- A response that is not to be retried is retried, because its text does not
-- name a client error or names an abort.
theorem recovering_retries :
    (¬Follows twice "https://a.com/".toList (recovering (answer 304 "Not Modified".toList))
      (fetchUrl twice "https://a.com/".toList none (recovering (answer 304 "Not Modified".toList)) fun _ => 0)) ∧
    ¬Follows twice "https://a.com/".toList (recovering (answer 404 "Lookup aborted".toList))
      (fetchUrl twice "https://a.com/".toList none (recovering (answer 404 "Lookup aborted".toList)) fun _ => 0) := by
  constructor
  · intro follows
    have decided := (follows.decided 0 _ (by decide) (fun _ none => nomatch none) rfl).1
    exact absurd decided (by decide)
  · intro follows
    have decided := (follows.decided 0 _ (by decide) (fun _ none => nomatch none) rfl).1
    exact absurd decided (by decide)

end AdblockCompiler.FetchRetry
