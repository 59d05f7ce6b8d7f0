import AdblockCompiler.JsText
import AdblockCompiler.Retries

-- withRetry: attempts of an operation, with an exponential, capped and
-- jittered delay after each that is retried. Numbers are rational.
namespace AdblockCompiler.AsyncRetry
open JsText Retries

-- ε is the type of Error objects.
structure RetryOptions (ε : Type) where
  maxRetries : ℚ := 3
  initialDelay : ℚ := 1000
  maxDelay : ℚ := 30000
  backoffFactor : ℚ := 2
  jitterFactor : ℚ := 3/10
  shouldRetry : ε → Nat → Bool := fun _ _ => true

structure RetryResult (τ : Type) where
  value : τ
  attempts : Nat
  deriving DecidableEq, Repr

-- A call of onRetry. The same delay is waited after it.
structure Retry (ε : Type) where
  error : ε
  attempt : Nat
  delay : Int
  deriving DecidableEq, Repr

-- What an operation may throw, and how that becomes an Error.
structure Throwing (ρ ε : Type) where
  toError : ρ → ε
  error : Text → ε

section Loop
variable {ρ ε τ : Type} (throwing : Throwing ρ ε) (options : RetryOptions ε)

def exponentialDelay (attempt : Nat) : ℚ :=
  min (options.initialDelay*options.backoffFactor^attempt) options.maxDelay

def delay (attempt : Nat) (random : ℚ) : Int :=
  let jitter := random*options.jitterFactor*exponentialDelay options attempt
  ⌊exponentialDelay options attempt+jitter⌋

def attemptOnce (attempt : Nat) (random : ℚ) : Except ρ τ → Turn ε (Retry ε) (RetryResult τ)
  | .ok value => .settled (.ok ⟨value,attempt+1⟩)
  | .error thrown =>
    let lastError := throwing.toError thrown
    let isLastAttempt := (attempt : ℚ) = options.maxRetries
    if isLastAttempt || !options.shouldRetry lastError attempt then .settled (.error lastError)
    else .failed lastError ⟨lastError,attempt+1,delay options attempt random⟩

-- operation and random give what the n-th attempt makes and draws.
def withRetry (operation : Nat → Except ρ τ) (random : Nat → ℚ) : Outcome ε (Retry ε) (RetryResult τ) :=
  retry (fun attempt => attemptOnce throwing options attempt (random attempt) (operation attempt))
    (·.getD (throwing.error "Retry failed with unknown error".toList)) options.maxRetries

-- The bounds a call is to respect.
structure Bounded (operation : Nat → Except ρ τ) (ran : Outcome ε (Retry ε) (RetryResult τ)) : Prop where
  attempts : (ran.attempts : ℚ) ≤ options.maxRetries+1
  success : ∀ k < ran.attempts, ∀ value, operation k = .ok value → ran.attempts = k+1 ∧ ran.result = .ok ⟨value,k+1⟩
  refusal : ∀ k < ran.attempts, ∀ thrown, operation k = .error thrown → options.shouldRetry (throwing.toError thrown) k = false →
    ran.attempts = k+1
  rejection : ∀ error, ran.result = .error error →
    ∃ k thrown, ran.attempts = k+1 ∧ operation k = .error thrown ∧ error = throwing.toError thrown
  delays : ∀ retry ∈ ran.waits, (retry.delay : ℚ) ≤ options.maxDelay

-- An attempt whose failure is retried.
def Retried (operation : Nat → Except ρ τ) (k : Nat) : Prop :=
  (k : ℚ) ≠ options.maxRetries ∧ ∃ thrown, operation k = .error thrown ∧ options.shouldRetry (throwing.toError thrown) k = true

-- The attempts that the loop reaches and retries.
def Waited (operation : Nat → Except ρ τ) (k : Nat) : Prop :=
  (k : ℚ) ≤ options.maxRetries ∧ ∀ i ≤ k, Retried throwing options operation i

-- With its jitter a delay stays below the next whole number after maxDelay.
def Tame (operation : Nat → Except ρ τ) (random : Nat → ℚ) : Prop :=
  ∀ k, Waited throwing options operation k →
    exponentialDelay options k*(1+random k*options.jitterFactor) < ⌊options.maxDelay⌋+1

end Loop

section Attempts
variable {ρ ε τ : Type} {throwing : Throwing ρ ε} {options : RetryOptions ε} {operation : Nat → Except ρ τ} {k : Nat} {d : ℚ}

theorem attempt_value (done : operation k = .ok value) :
    attemptOnce throwing options k d (operation k) = .settled (.ok ⟨value,k+1⟩) := by
  rw [done,attemptOnce]

theorem attempt_retried (raised : operation k = .error thrown) (again : Retried throwing options operation k) :
    attemptOnce throwing options k d (operation k) =
      .failed (throwing.toError thrown) ⟨throwing.toError thrown,k+1,delay options k d⟩ := by
  obtain ⟨more,other,same,asks⟩ := again
  obtain rfl := Except.error.inj (raised.symm.trans same)
  simp [attemptOnce,raised,more,asks]

theorem attempt_rejected (raised : operation k = .error thrown) (final : ¬Retried throwing options operation k) :
    attemptOnce throwing options k d (operation k) = .settled (.error (throwing.toError thrown)) := by
  by_cases last : (k : ℚ) = options.maxRetries
  · simp [attemptOnce,raised,last]
  · have refuses : options.shouldRetry (throwing.toError thrown) k = false := by
      by_contra asks
      exact final ⟨last,thrown,raised,by simpa using asks⟩
    simp [attemptOnce,raised,refuses]

theorem fails_iff : Fails (attemptOnce throwing options k d (operation k)) ↔ Retried throwing options operation k := by
  constructor
  · intro fails
    cases ran : operation k with
    | ok value =>
      rw [attempt_value ran] at fails
      exact fails.elim
    | error thrown =>
      by_contra final
      rw [attempt_rejected ran final] at fails
      exact fails
  · intro again
    obtain ⟨-,thrown,raised,-⟩ := id again
    rw [attempt_retried raised again]
    trivial

end Attempts

section Runs
variable {ρ ε τ : Type} {throwing : Throwing ρ ε} {options : RetryOptions ε} {operation : Nat → Except ρ τ} {random : Nat → ℚ}

theorem wait_iff {wait : Retry ε} : wait ∈ (withRetry throwing options operation random).waits ↔
    ∃ k thrown, Waited throwing options operation k ∧ operation k = .error thrown ∧
      wait = ⟨throwing.toError thrown,k+1,delay options k (random k)⟩ := by
  rw [withRetry,retry_waits]
  constructor
  · intro found
    obtain ⟨k,error,within,failing,fails⟩ := found
    have again : Retried throwing options operation k := fails_iff.mp (by rw [fails]; trivial)
    obtain ⟨-,thrown,raised,-⟩ := id again
    refine ⟨k,thrown,⟨within,?_⟩,raised,?_⟩
    · intro i small
      rcases Nat.lt_or_eq_of_le small with earlier | rfl
      · exact fails_iff.mp (failing i earlier)
      · exact again
    · injection fails.symm.trans (attempt_retried raised again)
  · intro found
    obtain ⟨k,thrown,⟨within,again⟩,raised,rfl⟩ := found
    exact ⟨k,_,within,fun i earlier => fails_iff.mpr (again i earlier.le),attempt_retried raised (again k (Nat.le_refl k))⟩

theorem delay_bound (options : RetryOptions ε) (k : Nat) (d : ℚ) : (delay options k d : ℚ) ≤ options.maxDelay ↔
    exponentialDelay options k*(1+d*options.jitterFactor) < ⌊options.maxDelay⌋+1 := by
  have spread : exponentialDelay options k+d*options.jitterFactor*exponentialDelay options k =
      exponentialDelay options k*(1+d*options.jitterFactor) := by ring
  rw [delay,spread,← Int.le_floor,← Int.lt_add_one_iff,Int.floor_lt]
  push_cast
  exact Iff.rfl

theorem delays_tame : (∀ retry ∈ (withRetry throwing options operation random).waits, (retry.delay : ℚ) ≤ options.maxDelay) ↔
    Tame throwing options operation random := by
  constructor
  · intro bounded k waited
    obtain ⟨-,thrown,raised,-⟩ := waited.2 k (Nat.le_refl k)
    exact (delay_bound options k (random k)).mp (bounded _ (wait_iff.mpr ⟨k,thrown,waited,raised,rfl⟩))
  · intro tame retry member
    obtain ⟨k,thrown,waited,-,rfl⟩ := wait_iff.mp member
    exact (delay_bound options k (random k)).mpr (tame k waited)

-- How a call ends: at an attempt that is not retried, or past a limit that no
-- attempt meets.
theorem ends_cases (throwing : Throwing ρ ε) (nonneg : 0 ≤ options.maxRetries) (operation : Nat → Except ρ τ) (random : Nat → ℚ) : ∃ k, (withRetry throwing options operation random).attempts = k+1 ∧
    (∀ i < k, Retried throwing options operation i) ∧
    ((∃ value, operation k = .ok value ∧ (withRetry throwing options operation random).result = .ok ⟨value,k+1⟩) ∨
      ∃ thrown, operation k = .error thrown ∧
        (withRetry throwing options operation random).result = .error (throwing.toError thrown)) := by
  have first : 0 < turns options.maxRetries := lt_turns.mpr (by simpa using nonneg)
  rcases turns_cases (fun attempt => attemptOnce throwing options attempt (random attempt) (operation attempt)) options.maxRetries with
    ⟨k,result,within,failing,settles⟩ | failing
  · have stops : (withRetry throwing options operation random).attempts = k+1 ∧ _ := retry_stops failing settles within
    refine ⟨k,stops.1,fun i earlier => fails_iff.mp (failing i earlier),?_⟩
    cases ran : operation k with
    | ok value =>
      have own := settles.symm.trans (attempt_value ran)
      injection own with own
      exact .inl ⟨value,rfl,stops.2.trans own⟩
    | error thrown =>
      have final : ¬Retried throwing options operation k := by
        intro again
        exact nomatch settles.symm.trans (attempt_retried ran again)
      have own := settles.symm.trans (attempt_rejected ran final)
      injection own with own
      exact .inr ⟨thrown,rfl,stops.2.trans own⟩
  · have ends : (withRetry throwing options operation random).attempts = turns options.maxRetries ∧ _ := retry_ends failing
    obtain ⟨k,same⟩ := Nat.exists_eq_succ_of_ne_zero first.ne'
    have again : Retried throwing options operation k := fails_iff.mp (failing k (by omega))
    obtain ⟨-,thrown,raised,-⟩ := id again
    rw [same,left,attempt_retried raised again] at ends
    exact ⟨k,ends.1,fun i earlier => fails_iff.mp (failing i (by omega)),.inr ⟨thrown,raised,ends.2⟩⟩

theorem final_last (before : ∀ i < k, Retried throwing options operation i) (within : i < k+1)
    (final : ¬Retried throwing options operation i) : i = k := by
  by_contra other
  exact final (before i (by omega))

theorem retry_bounded (nonneg : 0 ≤ options.maxRetries) :
    Bounded throwing options operation (withRetry throwing options operation random) ↔ Tame throwing options operation random := by
  constructor
  · intro bounded
    exact delays_tame.mp bounded.delays
  · intro tame
    obtain ⟨k,attempts,before,ends⟩ := ends_cases throwing nonneg operation random
    refine ⟨?_,?_,?_,?_,delays_tame.mpr tame⟩
    · have bound : ((withRetry throwing options operation random).attempts : ℚ) ≤ turns options.maxRetries := by
        exact_mod_cast retry_bound
      exact bound.trans (turns_bound nonneg)
    · intro i within value done
      have final : ¬Retried throwing options operation i := by
        intro again
        obtain ⟨-,thrown,raised,-⟩ := again
        exact nomatch done.symm.trans raised
      obtain rfl := final_last before (attempts ▸ within) final
      refine ⟨attempts,?_⟩
      rcases ends with ⟨other,same,result⟩ | ⟨thrown,raised,-⟩
      · obtain rfl := Except.ok.inj (done.symm.trans same)
        exact result
      · exact nomatch done.symm.trans raised
    · intro i within thrown raised refused
      have final : ¬Retried throwing options operation i := by
        intro again
        obtain ⟨-,other,same,asks⟩ := again
        obtain rfl := Except.error.inj (raised.symm.trans same)
        exact Bool.false_ne_true (refused.symm.trans asks)
      obtain rfl := final_last before (attempts ▸ within) final
      exact attempts
    · intro error rejects
      rcases ends with ⟨value,-,result⟩ | ⟨thrown,raised,result⟩
      · exact nomatch rejects.symm.trans result
      · exact ⟨k,thrown,attempts,raised,Except.error.inj (rejects.symm.trans result)⟩

end Runs

section Draws
variable {ρ ε τ : Type} {options : RetryOptions ε}

structure Sound (options : RetryOptions ε) : Prop where
  maxRetries : 0 ≤ options.maxRetries
  initialDelay : 0 ≤ options.initialDelay
  maxDelay : 0 ≤ options.maxDelay
  backoffFactor : 1 ≤ options.backoffFactor
  jitterFactor : 0 ≤ options.jitterFactor ∧ options.jitterFactor ≤ 1

theorem exponential_nonneg (sound : Sound options) (k : Nat) : 0 ≤ exponentialDelay options k := by
  have factor : 0 ≤ options.backoffFactor := zero_le_one.trans sound.backoffFactor
  exact le_min (mul_nonneg sound.initialDelay (pow_nonneg factor k)) sound.maxDelay

-- Below the bound for every draw: no jitter at all, or not even the whole of it
-- passes the bound.
theorem every_draw {e j b : ℚ} (below : e < b) (jitter : 0 ≤ e*j) :
    (∀ d, 0 ≤ d → d < 1 → e*(1+d*j) < b) ↔ e*j = 0 ∨ e*(1+j) ≤ b := by
  have spread (d : ℚ) : e*(1+d*j) = e+d*(e*j) := by ring
  have whole : e*(1+j) = e+e*j := by ring
  constructor
  · intro bounded
    rcases jitter.eq_or_lt with none | some_
    · exact .inl none.symm
    · right
      by_contra above
      rw [whole,not_le] at above
      have draw := bounded ((b-e)/(e*j)) (div_nonneg (by linarith) jitter) ((div_lt_one some_).mpr (by linarith))
      rw [spread,div_mul_cancel₀ _ some_.ne'] at draw
      linarith
  · intro small d nonneg less
    rw [spread]
    rcases small with none | bounded
    · rw [none]
      linarith
    · rw [whole] at bounded
      rcases jitter.eq_or_lt with none | some_
      · rw [← none]
        linarith
      · have shorter : d*(e*j) < e*j := by nlinarith
        linarith

-- A call respects its bounds exactly when no jitter takes a delay past the cap;
-- for all draws, exactly when each delay that is waited has no jitter or keeps
-- all of it below the next whole number after the cap.
theorem bounds_exact (throwing : Throwing ρ ε) (options : RetryOptions ε) (sound : Sound options) (operation : Nat → Except ρ τ) :
    (∀ random : Nat → ℚ, Bounded throwing options operation (withRetry throwing options operation random) ↔
      Tame throwing options operation random) ∧
    ((∀ random : Nat → ℚ, (∀ n, 0 ≤ random n ∧ random n < 1) →
        Bounded throwing options operation (withRetry throwing options operation random)) ↔
      ∀ k, Waited throwing options operation k → exponentialDelay options k*options.jitterFactor = 0 ∨
        exponentialDelay options k*(1+options.jitterFactor) ≤ ⌊options.maxDelay⌋+1) := by
  refine ⟨fun random => retry_bounded sound.maxRetries,?_⟩
  have below (k : Nat) : exponentialDelay options k < ⌊options.maxDelay⌋+1 :=
    (min_le_right _ _).trans_lt (Int.lt_floor_add_one options.maxDelay)
  have jitter (k : Nat) : 0 ≤ exponentialDelay options k*options.jitterFactor :=
    mul_nonneg (exponential_nonneg sound k) sound.jitterFactor.1
  constructor
  · intro bounded k waited
    refine (every_draw (below k) (jitter k)).mp ?_
    intro d nonneg less
    exact (retry_bounded sound.maxRetries).mp (bounded (fun _ => d) fun _ => ⟨nonneg,less⟩) k waited
  · intro small random draws
    refine (retry_bounded sound.maxRetries).mpr ?_
    intro k waited
    exact (every_draw (below k) (jitter k)).mpr (small k waited) (random k) (draws k).1 (draws k).2

end Draws

-- An operation that always throws its attempt's number.
def failing : Nat → Except Nat Unit := fun n => .error n

def numbers : Throwing Nat Nat := ⟨id,fun _ => 0⟩

theorem plain_bounded : Bounded numbers { jitterFactor := 0 } failing (withRetry numbers { jitterFactor := 0 } failing fun _ => 1/2) := by
  have sound : Sound ({ jitterFactor := 0 } : RetryOptions Nat) := ⟨by decide,by decide,by decide,by decide,by decide⟩
  refine (bounds_exact numbers { jitterFactor := 0 } sound failing).2.mpr ?_ (fun _ => 1/2) (fun _ => by norm_num)
  intro k _
  exact .inl (mul_zero _)

-- Half of the default jitter on a delay at the cap.
theorem jitter_passes : ¬Bounded numbers { maxRetries := 1, initialDelay := 30000 } failing
    (withRetry numbers { maxRetries := 1, initialDelay := 30000 } failing fun _ => 1/2) := by
  intro bounded
  have late := bounded.delays ⟨0,1,34500⟩ (by decide +kernel)
  exact absurd late (by decide +kernel)

end AdblockCompiler.AsyncRetry
