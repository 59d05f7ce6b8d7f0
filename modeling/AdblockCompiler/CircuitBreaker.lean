import AdblockCompiler.Schedules
import AdblockCompiler.JsText

-- CircuitBreaker: one breaker and the calls of execute that go through it, each
-- with a function that settles at any later time.
namespace AdblockCompiler.CircuitBreaker
open JsText Schedules

inductive CircuitBreakerState where
  | CLOSED | OPEN | HALF_OPEN
  deriving DecidableEq, Repr

-- Numbers that options give: rational, or Infinity.
abbrev Numeral := WithTop ℚ

structure CircuitBreakerOptions where
  threshold : Option Numeral
  timeout : Option Numeral
  name : Option Text

-- Times are those of Date, in milliseconds.
structure Breaker where
  failureCount : Nat
  state : CircuitBreakerState
  lastFailureTime : Option Int
  threshold : Numeral
  timeout : Numeral
  name : Text

def create (options : CircuitBreakerOptions) : Breaker :=
  { failureCount := 0
    state := .CLOSED
    lastFailureTime := none
    threshold := options.threshold.getD 5
    timeout := options.timeout.getD 60000
    name := options.name.getD "CircuitBreaker".toList }

structure CircuitBreakerOpenError where
  message : Text
  state : CircuitBreakerState

def Numeral.of (n : Int) : Numeral := ((n : ℚ) : Numeral)

def shouldAttemptRecovery (breaker : Breaker) (now : Int) : Bool :=
  match breaker.lastFailureTime with
  | none => true
  | some lastFailureTime => Numeral.of (now-lastFailureTime) ≥ breaker.timeout

def getTimeUntilRecovery (breaker : Breaker) (now : Int) : Numeral :=
  match breaker.lastFailureTime,breaker.timeout with
  | none,_ => 0
  | some _,none => none
  | some lastFailureTime,some timeout => some (max 0 (timeout - ((now-lastFailureTime : Int) : ℚ)))

-- Math.ceil(timeRemaining / 1000), as a template spells it.
def seconds : Numeral → Text
  | none => "Infinity".toList
  | some timeRemaining => (toString ⌈timeRemaining/1000⌉).toList

def openError (breaker : Breaker) (now : Int) : CircuitBreakerOpenError :=
  let message := "Circuit breaker is OPEN. Retry in ".toList ++ seconds (getTimeUntilRecovery breaker now) ++ "s".toList
  { message := if breaker.name = [] then message else "[".toList ++ breaker.name ++ "] ".toList ++ message
    state := breaker.state }

-- execute up to the call of its function.
def enter (breaker : Breaker) (now : Int) : Except CircuitBreakerOpenError Breaker :=
  if breaker.state = .OPEN then
    if shouldAttemptRecovery breaker now then .ok { breaker with state := .HALF_OPEN }
    else .error (openError breaker now)
  else .ok breaker

def onSuccess (breaker : Breaker) : Breaker :=
  { breaker with failureCount := 0, state := .CLOSED, lastFailureTime := none }

def onFailure (breaker : Breaker) (now : Int) : Breaker :=
  let failureCount := breaker.failureCount+1
  { breaker with
    failureCount := failureCount
    lastFailureTime := some now
    state :=
      if breaker.state = .HALF_OPEN then .OPEN
      else if (failureCount : Numeral) ≥ breaker.threshold then .OPEN
      else breaker.state }

def reset (breaker : Breaker) : Breaker :=
  { breaker with failureCount := 0, state := .CLOSED, lastFailureTime := none }

-- A call of execute whose function was invoked. opened and left are history:
-- how often the breaker had opened, and had left OPEN for HALF_OPEN, by then.
structure Call where
  opened : Nat
  left : Nat
  running : Bool

-- failures holds the times of all failures reported, the last one first.
structure State where
  breaker : Breaker
  now : Int
  calls : List Call
  rejections : List CircuitBreakerOpenError
  opened : Nat
  left : Nat
  failures : List Int

def start (options : CircuitBreakerOptions) (now : Int) : State := ⟨create options,now,[],[],0,0,[]⟩

inductive Event where
  | execute
  | succeeds (i : Nat)
  | fails (i : Nat)
  | reset
  | advance (ms : Nat)

def settle (s : State) (i : Nat) (call : Call) (breaker : Breaker) : State :=
  { s with breaker := breaker, calls := s.calls.set i { call with running := false } }

def step (s : State) : Event → Option State
  | .execute =>
    match enter s.breaker s.now with
    | .error rejection => some { s with rejections := s.rejections ++ [rejection] }
    | .ok breaker =>
      let left := if s.breaker.state = .OPEN then s.left+1 else s.left
      some { s with breaker := breaker, left := left, calls := s.calls ++ [⟨s.opened,left,true⟩] }
  | .succeeds i => do
    let call ← s.calls[i]?
    if call.running then some (settle s i call (onSuccess s.breaker)) else none
  | .fails i => do
    let call ← s.calls[i]?
    if call.running then
      let breaker := onFailure s.breaker s.now
      let opens := breaker.state = .OPEN ∧ s.breaker.state ≠ .OPEN
      some { settle s i call breaker with
        opened := if opens then s.opened+1 else s.opened
        failures := s.now :: s.failures }
    else none
  | .reset => some { s with breaker := reset s.breaker }
  | .advance ms => some { s with now := s.now+ms }

-- Less than the timeout has passed since the last failure reported.
def early (s : State) : Bool :=
  match s.failures with
  | [] => false
  | last :: _ => Numeral.of (s.now-last) < s.breaker.timeout

inductive Change (s : State) : Event → State → Prop where
  | refused (shut : s.breaker.state = .OPEN) (waits : shouldAttemptRecovery s.breaker s.now = false) :
      Change s .execute { s with rejections := s.rejections ++ [openError s.breaker s.now] }
  | probed (shut : s.breaker.state = .OPEN) (due : shouldAttemptRecovery s.breaker s.now = true) :
      Change s .execute { s with
        breaker := { s.breaker with state := .HALF_OPEN }
        left := s.left+1
        calls := s.calls ++ [⟨s.opened,s.left+1,true⟩] }
  | admitted (through : s.breaker.state ≠ .OPEN) :
      Change s .execute { s with calls := s.calls ++ [⟨s.opened,s.left,true⟩] }
  | succeeded (found : s.calls[i]? = some call) (running : call.running = true) :
      Change s (.succeeds i) (settle s i call (onSuccess s.breaker))
  | opens (found : s.calls[i]? = some call) (running : call.running = true) (shut : s.breaker.state ≠ .OPEN)
      (fails : (onFailure s.breaker s.now).state = .OPEN) :
      Change s (.fails i) { settle s i call (onFailure s.breaker s.now) with
        opened := s.opened+1
        failures := s.now :: s.failures }
  | failed (found : s.calls[i]? = some call) (running : call.running = true)
      (same : (onFailure s.breaker s.now).state = s.breaker.state) :
      Change s (.fails i) { settle s i call (onFailure s.breaker s.now) with failures := s.now :: s.failures }
  | reset : Change s .reset { s with breaker := reset s.breaker }
  | advanced : Change s (.advance ms) { s with now := s.now+ms }

theorem onFailure_opens (breaker : Breaker) (now : Int) :
    (onFailure breaker now).state = .OPEN ∨
      breaker.state = .CLOSED ∧ (onFailure breaker now).state = .CLOSED ∧ ((breaker.failureCount+1 : Nat) : Numeral) < breaker.threshold := by
  cases before : breaker.state with
  | HALF_OPEN => exact .inl (if_pos before)
  | OPEN =>
    refine .inl ?_
    simp only [onFailure,before]
    split
    · rfl
    · split <;> rfl
  | CLOSED =>
    by_cases reached : ((breaker.failureCount+1 : Nat) : Numeral) ≥ breaker.threshold
    · refine .inl ?_
      simp only [onFailure,before,if_pos reached]
      rfl
    · refine .inr ⟨rfl,?_,lt_of_not_ge reached⟩
      simp only [onFailure,before,if_neg reached]
      rfl

theorem step_cases (stepped : step s event = some t) : Change s event t := by
  cases event with
  | execute =>
    by_cases shut : s.breaker.state = .OPEN
    · cases due : shouldAttemptRecovery s.breaker s.now with
      | true =>
        have admits : enter s.breaker s.now = .ok { s.breaker with state := .HALF_OPEN } := by
          rw [enter,if_pos shut,due]
          rfl
        simp only [step,admits,if_pos shut] at stepped
        cases stepped
        exact .probed shut due
      | false =>
        have refuses : enter s.breaker s.now = .error (openError s.breaker s.now) := by
          rw [enter,if_pos shut,due]
          rfl
        simp only [step,refuses] at stepped
        cases stepped
        exact .refused shut due
    · have admits : enter s.breaker s.now = .ok s.breaker := if_neg shut
      simp only [step,admits,if_neg shut] at stepped
      cases stepped
      exact .admitted shut
  | succeeds i =>
    obtain ⟨call,found,rest⟩ := Option.bind_eq_some_iff.mp stepped
    split at rest
    · cases rest
      exact .succeeded found ‹_›
    · cases rest
  | fails i =>
    obtain ⟨call,found,rest⟩ := Option.bind_eq_some_iff.mp stepped
    split at rest
    · rename_i running
      by_cases opens : (onFailure s.breaker s.now).state = .OPEN ∧ s.breaker.state ≠ .OPEN
      · simp only [if_pos opens] at rest
        cases rest
        exact .opens found running opens.2 opens.1
      · simp only [if_neg opens] at rest
        cases rest
        refine .failed found running ?_
        rcases onFailure_opens s.breaker s.now with shut | ⟨before,after,-⟩
        · exact shut.trans (of_not_not fun other => opens ⟨shut,fun same => other same⟩).symm
        · exact after.trans before.symm
    · cases rest
  | reset => cases stepped; exact .reset
  | advance ms => cases stepped; exact .advanced

-- What a state says about the failures counted, and the last one recorded.
structure Sound (threshold : Numeral) (s : State) : Prop where
  fixed : s.breaker.threshold = threshold
  closed : s.breaker.state = .CLOSED → (s.breaker.failureCount : Numeral) < threshold
  tripped : s.breaker.state ≠ .CLOSED → threshold ≤ s.breaker.failureCount
  recorded : s.breaker.state = .OPEN → ∃ last rest, s.failures = last :: rest ∧ s.breaker.lastFailureTime = some last

theorem onFailure_sound (sound : Sound threshold s) (s' : State) (breaker : s'.breaker = onFailure s.breaker s.now)
    (failures : s'.failures = s.now :: s.failures) : Sound threshold s' := by
  have counted : ((s.breaker.failureCount+1 : Nat) : Numeral) = s'.breaker.failureCount := by rw [breaker]; rfl
  have more : (s.breaker.failureCount : Numeral) ≤ s'.breaker.failureCount := by
    rw [← counted]
    exact_mod_cast Nat.le_succ _
  have recorded : s'.breaker.lastFailureTime = some s.now := by rw [breaker]; rfl
  refine ⟨?_,?_,?_,fun _ => ⟨s.now,s.failures,failures,recorded⟩⟩
  · rw [breaker]
    exact sound.fixed
  · intro closed
    rcases onFailure_opens s.breaker s.now with shut | ⟨-,-,below⟩
    · rw [breaker,shut] at closed
      cases closed
    · rw [← counted,← sound.fixed]
      exact below
  · intro tripped
    by_cases before : s.breaker.state = .CLOSED
    · rw [breaker] at tripped
      rw [← counted,← sound.fixed]
      refine le_of_not_gt fun below => tripped ?_
      simp only [onFailure,before,if_neg (not_le_of_gt below)]
      rfl
    · exact (sound.tripped before).trans more

theorem sound_step (positive : 0 < threshold) (sound : Sound threshold s) (stepped : step s event = some t) :
    Sound threshold t := by
  cases step_cases stepped with
  | refused shut waits => exact ⟨sound.fixed,sound.closed,sound.tripped,sound.recorded⟩
  | probed shut due =>
    refine ⟨sound.fixed,?_,?_,?_⟩
    · intro closed; cases closed
    · intro _; exact sound.tripped (by rw [shut]; decide)
    · intro opened; cases opened
  | admitted through => exact ⟨sound.fixed,sound.closed,sound.tripped,sound.recorded⟩
  | succeeded found running =>
    refine ⟨sound.fixed,fun _ => positive,?_,?_⟩
    · intro tripped; exact absurd rfl tripped
    · intro opened; cases opened
  | opens found running shut fails => exact onFailure_sound sound _ rfl rfl
  | failed found running same => exact onFailure_sound sound _ rfl rfl
  | reset =>
    refine ⟨sound.fixed,fun _ => positive,?_,?_⟩
    · intro tripped; exact absurd rfl tripped
    · intro opened; cases opened
  | advanced => exact ⟨sound.fixed,sound.closed,sound.tripped,sound.recorded⟩

theorem sound_start (positive : 0 < (create options).threshold) (now : Int) :
    Sound (create options).threshold (start options now) := by
  refine ⟨rfl,fun _ => positive,?_,?_⟩
  · intro tripped; exact absurd rfl tripped
  · intro opened; cases opened

theorem sound_run (positive : 0 < (create options).threshold) (ran : run step (start options now) events = some s) :
    Sound (create options).threshold s :=
  run_keeps (Sound (create options).threshold) (fun _ _ _ sound stepped => sound_step positive sound stepped)
    (sound_start positive now) ran

theorem early_refused (sound : Sound threshold s) (shut : s.breaker.state = .OPEN) (soon : early s = true) :
    step s .execute = some { s with rejections := s.rejections ++ [openError s.breaker s.now] } := by
  obtain ⟨last,rest,failures,recorded⟩ := sound.recorded shut
  have below : Numeral.of (s.now-last) < s.breaker.timeout := by
    rw [early,failures] at soon
    exact of_decide_eq_true soon
  have waits : shouldAttemptRecovery s.breaker s.now = false := by
    rw [shouldAttemptRecovery,recorded]
    exact decide_eq_false (not_le_of_gt below)
  have refuses : enter s.breaker s.now = .error (openError s.breaker s.now) := by
    rw [enter,if_pos shut,waits]
    rfl
  simp only [step,refuses]

theorem breaker_sound (positive : 1 ≤ (create options).threshold) (ran : run step (start options now) events = some s) :
    (s.breaker.state = .CLOSED → (s.breaker.failureCount : Numeral) < (create options).threshold) ∧
    (s.breaker.state = .OPEN ∨ s.breaker.state = .HALF_OPEN → (create options).threshold ≤ s.breaker.failureCount) ∧
    (s.breaker.state = .OPEN → ∃ last, s.breaker.lastFailureTime = some last ∧ s.failures.head? = some last) ∧
    (s.breaker.state = .OPEN → early s = true →
      step s .execute = some { s with rejections := s.rejections ++ [openError s.breaker s.now] }) := by
  have sound := sound_run (zero_lt_one.trans_le positive) ran
  refine ⟨sound.closed,?_,?_,early_refused sound⟩
  · intro tripped
    refine sound.tripped ?_
    rcases tripped with shut | probing
    · rw [shut]; decide
    · rw [probing]; decide
  · intro shut
    obtain ⟨last,rest,failures,recorded⟩ := sound.recorded shut
    exact ⟨last,recorded,congrArg List.head? failures⟩

-- One failure opens a breaker with threshold 1; half a second later it refuses
-- the next call, and the failure of an older one is still to come.
def oneFailure : List Event := [.execute,.execute,.fails 0,.advance 500]

def strict : CircuitBreakerOptions := ⟨some 1,some 1000,none⟩

theorem oneFailure_sound : ∃ s, run step (start strict 0) oneFailure = some s ∧
    (s.breaker.state = .OPEN ∨ s.breaker.state = .HALF_OPEN → 1 ≤ (s.breaker.failureCount : Numeral)) ∧
    step s .execute = some { s with rejections := s.rejections ++ [openError s.breaker s.now] } := by
  have ran : run step (start strict 0) oneFailure = some _ := rfl
  have sound := @breaker_sound strict 0 oneFailure _ (le_refl 1) ran
  exact ⟨_,ran,sound.2.1,sound.2.2.2 (by decide +kernel) (by decide +kernel)⟩

-- Functions running that were started since the breaker last left OPEN.
def probes (s : State) : Nat := s.calls.countP fun call => call.running && call.left = s.left

-- Recovery is isolated from overlapping calls in a step and in the state it
-- leads to.
def Isolates (s : State) (event : Event) (t : State) : Prop :=
  (t.breaker.state = .HALF_OPEN → probes t ≤ 1) ∧
  ∀ i call, event = .succeeds i → s.calls[i]? = some call → call.opened < s.opened →
    s.breaker.state = .OPEN → early s = true → t.breaker.state ≠ .CLOSED

-- No call is made while a probe runs in HALF_OPEN, and no function succeeds
-- while the breaker is OPEN and its timeout runs.
def undisturbed (s : State) : Event → Bool
  | .execute => s.breaker.state ≠ .HALF_OPEN || probes s = 0
  | .succeeds _ => s.breaker.state ≠ .OPEN || !early s
  | _ => true

structure Tracked (s : State) : Prop where
  lefts : ∀ call ∈ s.calls, call.left ≤ s.left
  openings : ∀ call ∈ s.calls, call.opened ≤ s.opened
  older : s.breaker.state = .OPEN → ∀ call ∈ s.calls, call.opened < s.opened
  single : s.breaker.state = .HALF_OPEN → probes s ≤ 1

theorem forall_settled {P : Call → Prop} {calls : List Call} (found : calls[i]? = some call)
    (same : P call → P { call with running := false }) (all : ∀ call ∈ calls, P call) :
    ∀ other ∈ calls.set i { call with running := false }, P other :=
  forall_set all (same (all call (List.mem_of_getElem? found)))

theorem tracked_step (tracked : Tracked s) (stepped : step s event = some t)
    (single : t.breaker.state = .HALF_OPEN → probes t ≤ 1) : Tracked t := by
  obtain ⟨lefts,openings,older,-⟩ := tracked
  cases step_cases stepped with
  | refused shut waits => exact ⟨lefts,openings,older,single⟩
  | probed shut due =>
    refine ⟨?_,?_,?_,single⟩
    · exact forall_append (fun call member => Nat.le_succ_of_le (lefts call member)) (Nat.le_refl _)
    · exact forall_append openings (Nat.le_refl _)
    · intro opened; cases opened
  | admitted through =>
    refine ⟨?_,?_,?_,single⟩
    · exact forall_append lefts (Nat.le_refl _)
    · exact forall_append openings (Nat.le_refl _)
    · intro opened; exact absurd opened through
  | succeeded found running =>
    refine ⟨?_,?_,?_,single⟩
    · exact forall_settled found id lefts
    · exact forall_settled found id openings
    · intro opened; cases opened
  | opens found running shut fails =>
    have opening := forall_settled found id openings
    refine ⟨?_,?_,?_,single⟩
    · exact forall_settled found id lefts
    · exact fun call member => Nat.le_succ_of_le (opening call member)
    · exact fun _ call member => Nat.lt_succ_of_le (opening call member)
  | failed found running same =>
    refine ⟨?_,?_,?_,single⟩
    · exact forall_settled found id lefts
    · exact forall_settled found id openings
    · intro opened
      exact forall_settled found id (older (same.symm.trans opened))
  | reset =>
    refine ⟨lefts,openings,?_,single⟩
    intro opened; cases opened
  | advanced => exact ⟨lefts,openings,older,single⟩

theorem probes_append (s : State) (opened left : Nat) (breaker : Breaker) :
    probes { s with breaker := breaker, left := left, calls := s.calls ++ [⟨opened,left,true⟩] } =
      (s.calls.countP fun call => call.running && call.left = left) + 1 := by
  simp [probes,List.countP_append]

theorem onFailure_settles (breaker : Breaker) (now : Int) : (onFailure breaker now).state ≠ .HALF_OPEN := by
  intro halfOpen
  rcases onFailure_opens breaker now with shut | ⟨-,closed,-⟩
  · rw [halfOpen] at shut; cases shut
  · rw [halfOpen] at closed; cases closed

theorem undisturbed_single (tracked : Tracked s) (stepped : step s event = some t) (calm : undisturbed s event = true) :
    t.breaker.state = .HALF_OPEN → probes t ≤ 1 := by
  cases step_cases stepped with
  | refused shut waits => exact tracked.single
  | probed shut due =>
    intro _
    have none : (s.calls.countP fun call => call.running && call.left = s.left+1) = 0 := by
      refine List.countP_eq_zero.mpr ?_
      intro call member
      have before := tracked.lefts call member
      have other : call.left ≠ s.left+1 := by omega
      simp [other]
    exact Nat.le_of_eq ((probes_append s s.opened (s.left+1) _).trans (congrArg (· + 1) none))
  | admitted through =>
    intro (halfOpen : s.breaker.state = .HALF_OPEN)
    have quiet : probes s = 0 := by simpa [undisturbed,halfOpen] using calm
    exact Nat.le_of_eq ((probes_append s s.opened s.left s.breaker).trans (congrArg (· + 1) quiet))
  | succeeded found running => intro halfOpen; cases halfOpen
  | opens found running shut fails => intro halfOpen; exact absurd halfOpen (onFailure_settles s.breaker s.now)
  | failed found running same => intro halfOpen; exact absurd halfOpen (onFailure_settles s.breaker s.now)
  | reset => intro halfOpen; cases halfOpen
  | advanced => exact tracked.single

theorem undisturbed_step (tracked : Tracked s) (stepped : step s event = some t) :
    Isolates s event t ↔ undisturbed s event = true := by
  constructor
  · intro isolates
    obtain ⟨single,keeps⟩ := isolates
    cases step_cases stepped with
    | refused shut waits => simp [undisturbed,shut]
    | probed shut due => simp [undisturbed,shut]
    | admitted through =>
      by_cases halfOpen : s.breaker.state = .HALF_OPEN
      · have twice : probes s + 1 ≤ 1 := (probes_append s s.opened s.left s.breaker).symm.trans_le (single halfOpen)
        have quiet : probes s = 0 := by omega
        simp [undisturbed,quiet]
      · simp [undisturbed,halfOpen]
    | @succeeded i call found running =>
      by_cases shut : s.breaker.state = .OPEN
      · cases soon : early s with
        | false => simp [undisturbed,soon]
        | true =>
          have older := tracked.older shut call (List.mem_of_getElem? found)
          exact absurd rfl (keeps i call rfl found older shut soon)
      · simp [undisturbed,shut]
    | opens | failed | reset | advanced => rfl
  · intro calm
    refine ⟨undisturbed_single tracked stepped calm,?_⟩
    intro i call same found older shut soon
    subst same
    simp [undisturbed,shut,soon] at calm

theorem tracked_start (options : CircuitBreakerOptions) (now : Int) : Tracked (start options now) := by
  refine ⟨?_,?_,?_,?_⟩
  · intro call member; cases member
  · intro call member; cases member
  · intro opened; cases opened
  · intro halfOpen; cases halfOpen

theorem isolation_exact (options : CircuitBreakerOptions) (now : Int) (events : List Event) :
    Along step Isolates (start options now) events ↔
      Along step (fun s event _ => undisturbed s event = true) (start options now) events :=
  along_exact Tracked (fun _ _ _ tracked stepped isolates => tracked_step tracked stepped isolates.1)
    (fun _ _ _ tracked stepped => undisturbed_step tracked stepped) (tracked_start options now)

-- Two calls are made when the timeout is over, and both are let through; and a
-- call made before the breaker opened succeeds half a second later.
def twoProbes : List Event := [.execute,.fails 0,.advance 1000,.execute,.execute]
def lateSuccess : List Event := [.execute,.execute,.fails 0,.advance 500,.succeeds 1]

theorem overlaps_meet : (run step (start strict 0) twoProbes).isSome = true ∧ ¬Along step Isolates (start strict 0) twoProbes ∧
    (run step (start strict 0) lateSuccess).isSome = true ∧ ¬Along step Isolates (start strict 0) lateSuccess := by
  refine ⟨rfl,?_,rfl,?_⟩
  · intro isolates
    obtain ⟨_,one,-,_,two,-,_,three,-,_,four,-,_,five,last,-⟩ := isolates
    cases one; cases two; cases three; cases four; cases five
    exact absurd (last.1 (by decide +kernel)) (by decide +kernel)
  · intro isolates
    obtain ⟨_,one,-,_,two,-,_,three,-,_,four,-,_,five,last,-⟩ := isolates
    cases one; cases two; cases three; cases four; cases five
    exact last.2 1 ⟨0,0,true⟩ rfl rfl (by decide +kernel) (by decide +kernel) (by decide +kernel) rfl

end AdblockCompiler.CircuitBreaker
