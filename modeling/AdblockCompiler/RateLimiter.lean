import AdblockCompiler.Schedules

-- RateLimiterDO: one fixed window of requests for an identity, kept in memory
-- and flushed to storage. Times are milliseconds.
namespace AdblockCompiler.RateLimiter
open Schedules

-- What IncrementRequestSchema lets through.
structure IncrementRequest where
  maxRequests : Nat
  windowSeconds : Nat
  max_positive : 0 < maxRequests
  window_positive : 0 < windowSeconds

def IncrementRequest.safeParse (maxRequests windowSeconds : Option Int) : Option IncrementRequest := do
  let max ← maxRequests
  let seconds ← windowSeconds
  if max_positive : 0 < max.toNat then
    if window_positive : 0 < seconds.toNat then some ⟨max.toNat,seconds.toNat,max_positive,window_positive⟩ else none
  else none

structure RateLimitResult where
  allowed : Bool
  limit : Nat
  remaining : Int
  resetAt : Nat
  deriving DecidableEq, Repr

structure Memory where
  count : Nat
  resetAt : Nat
  limit : Nat
  deriving DecidableEq, Repr

-- The keys rl:count, rl:resetAt and rl:limit.
structure Storage where
  count : Option Nat
  resetAt : Option Nat
  limit : Option Nat
  deriving DecidableEq, Repr

structure RateLimiterDO where
  memory : Memory
  storage : Storage
  alarm : Option Nat
  deriving DecidableEq, Repr

def cleared : Memory := ⟨0,0,0⟩
def emptied : Storage := ⟨none,none,none⟩

-- The constructor under blockConcurrencyWhile.
def restore (storage : Storage) : Memory :=
  ⟨storage.count.getD 0,storage.resetAt.getD 0,storage.limit.getD 0⟩

def increment (object : RateLimiterDO) (now : Nat) (request : IncrementRequest) : RateLimitResult × RateLimiterDO :=
  let maxRequests := request.maxRequests
  let windowMs := request.windowSeconds*1000
  let memory := object.memory
  if memory.resetAt = 0 ∨ now > memory.resetAt then
    let memory : Memory := ⟨1,now+windowMs,maxRequests⟩
    (⟨true,maxRequests,(maxRequests : Int)-1,memory.resetAt⟩,
      ⟨memory,⟨some memory.count,some memory.resetAt,some memory.limit⟩,some (memory.resetAt+1000)⟩)
  else
    let limitChanged := memory.limit ≠ maxRequests
    let memory := { memory with limit := maxRequests }
    if memory.count ≥ maxRequests then
      (⟨false,maxRequests,0,memory.resetAt⟩,
        { object with
          memory := memory
          storage := if limitChanged then { object.storage with count := some memory.count, limit := some memory.limit }
            else object.storage })
    else
      let memory := { memory with count := memory.count+1 }
      (⟨true,maxRequests,(maxRequests : Int)-memory.count,memory.resetAt⟩,
        { object with
          memory := memory
          storage := if limitChanged then { object.storage with count := some memory.count, limit := some memory.limit }
            else { object.storage with count := some memory.count } })

-- deleteAll leaves an alarm as it is.
def resetCounter (object : RateLimiterDO) : RateLimiterDO := { object with memory := cleared, storage := emptied }

-- What a client sees: its answered requests and the resets, latest first.
inductive Entry where
  | request (now windowSeconds : Nat) (allowed : Bool)
  | reset
  deriving DecidableEq, Repr

-- While the object is asleep its memory is gone: the next event wakes it first.
structure State where
  object : RateLimiterDO
  awake : Bool
  clock : Nat
  history : List Entry
  deriving DecidableEq, Repr

def fresh : State := ⟨⟨cleared,emptied,none⟩,true,0,[]⟩

inductive Event where
  | increment (now : Nat) (maxRequests windowSeconds : Option Int)
  | reset (now : Nat)
  | alarm (now : Nat)
  | hibernate
  | restore
  deriving DecidableEq, Repr

def step (s : State) : Event → Option State
  | .increment now maxRequests windowSeconds =>
    if s.awake ∧ s.clock ≤ now then
      match IncrementRequest.safeParse maxRequests windowSeconds with
      | none => some { s with clock := now }
      | some request =>
        let (result,object) := increment s.object now request
        some ⟨object,true,now,.request now request.windowSeconds result.allowed :: s.history⟩
    else none
  | .reset now => if s.awake ∧ s.clock ≤ now then some ⟨resetCounter s.object,true,now,.reset :: s.history⟩ else none
  | .alarm now =>
    if s.awake ∧ s.clock ≤ now ∧ s.object.alarm.any (· ≤ now) then
      some { s with object := resetCounter { s.object with alarm := none }, clock := now }
    else none
  | .hibernate => if s.awake then some { s with object := { s.object with memory := cleared }, awake := false } else none
  | .restore =>
    if s.awake then none
    else some { s with object := { s.object with memory := RateLimiter.restore s.object.storage }, awake := true }

-- The window a history leaves: it is opened by the first request that finds
-- none active, and counts the requests allowed in it.
structure Window where
  ends : Nat
  allowed : Nat
  deriving DecidableEq, Repr

def active (window : Option Window) (now : Nat) : Option Window := window.filter fun w => now ≤ w.ends

def count (allowed : Bool) : Nat := if allowed then 1 else 0

def windowOf : List Entry → Option Window
  | [] => none
  | .reset :: _ => none
  | .request now windowSeconds allowed :: earlier =>
    match active (windowOf earlier) now with
    | none => some ⟨now+windowSeconds*1000,count allowed⟩
    | some w => some { w with allowed := w.allowed+count allowed }

-- Storage determines the object: memory is what a restore would read, and the
-- alarm of a window comes after it.
structure Stored (object : RateLimiterDO) (memory : Memory) : Prop where
  restored : restore object.storage = memory
  alarmed : memory.resetAt ≠ 0 → object.alarm = some (memory.resetAt+1000)

-- Memory counts the requests allowed in the window that the history leaves.
structure Counts (history : List Entry) (clock : Nat) (memory : Memory) : Prop where
  closed : memory.resetAt = 0 → ∀ w, windowOf history = some w → w.ends < clock
  opened : memory.resetAt ≠ 0 → windowOf history = some ⟨memory.resetAt,memory.count⟩

theorem active_none (past : ∀ w, window = some w → w.ends < now) : active window now = none := by
  unfold active
  cases window with
  | none => rfl
  | some w =>
    have before := past w rfl
    exact if_neg (by simpa using before)

theorem active_some (inside : now ≤ w.ends) : active (some w) now = some w := if_pos (by simpa using inside)

theorem counts_expired (counts : Counts history clock memory) (later : clock ≤ now)
    (expired : memory.resetAt = 0 ∨ now > memory.resetAt) : active (windowOf history) now = none := by
  apply active_none
  intro w left
  by_cases zero : memory.resetAt = 0
  · exact Nat.lt_of_lt_of_le (counts.closed zero w left) later
  · rw [counts.opened zero] at left
    cases left
    exact expired.resolve_left zero

theorem counts_running (counts : Counts history clock memory) (running : ¬(memory.resetAt = 0 ∨ now > memory.resetAt)) :
    active (windowOf history) now = some ⟨memory.resetAt,memory.count⟩ := by
  obtain ⟨nonzero,inside⟩ := not_or.mp running
  rw [counts.opened nonzero]
  exact active_some (Nat.le_of_not_lt inside)

-- The three ways through increment.
inductive Incremented (object : RateLimiterDO) (now : Nat) (request : IncrementRequest) :
    RateLimitResult → Memory → Prop where
  | opened (expired : object.memory.resetAt = 0 ∨ now > object.memory.resetAt) :
      Incremented object now request
        ⟨true,request.maxRequests,(request.maxRequests : Int)-1,now+request.windowSeconds*1000⟩
        ⟨1,now+request.windowSeconds*1000,request.maxRequests⟩
  | rejected (running : ¬(object.memory.resetAt = 0 ∨ now > object.memory.resetAt))
      (full : request.maxRequests ≤ object.memory.count) :
      Incremented object now request ⟨false,request.maxRequests,0,object.memory.resetAt⟩
        { object.memory with limit := request.maxRequests }
  | counted (running : ¬(object.memory.resetAt = 0 ∨ now > object.memory.resetAt))
      (room : object.memory.count < request.maxRequests) :
      Incremented object now request
        ⟨true,request.maxRequests,(request.maxRequests : Int)-(object.memory.count+1 : Nat),object.memory.resetAt⟩
        ⟨object.memory.count+1,object.memory.resetAt,request.maxRequests⟩

theorem increment_cases (object : RateLimiterDO) (now : Nat) (request : IncrementRequest) :
    Incremented object now request (increment object now request).1 (increment object now request).2.memory := by
  unfold increment
  dsimp only
  by_cases expired : object.memory.resetAt = 0 ∨ now > object.memory.resetAt
  · rw [if_pos expired]
    exact .opened expired
  · rw [if_neg expired]
    by_cases full : object.memory.count ≥ request.maxRequests
    · rw [if_pos full]
      exact .rejected expired full
    · rw [if_neg full]
      exact .counted expired (Nat.lt_of_not_le full)

-- Each branch persists what it changed.
theorem increment_stored (stored : Stored object object.memory) (now : Nat) (request : IncrementRequest) :
    Stored (increment object now request).2 (increment object now request).2.memory := by
  have same := stored.restored
  have counts : object.storage.count.getD 0 = object.memory.count := congrArg Memory.count same
  have resets : object.storage.resetAt.getD 0 = object.memory.resetAt := congrArg Memory.resetAt same
  have limits : object.storage.limit.getD 0 = object.memory.limit := congrArg Memory.limit same
  unfold increment
  dsimp only
  by_cases expired : object.memory.resetAt = 0 ∨ now > object.memory.resetAt
  · rw [if_pos expired]
    exact ⟨rfl,fun _ => rfl⟩
  · rw [if_neg expired]
    by_cases full : object.memory.count ≥ request.maxRequests
    · rw [if_pos full]
      refine ⟨?_,stored.alarmed⟩
      by_cases changed : object.memory.limit ≠ request.maxRequests
      · simp only [if_pos changed,restore,Option.getD_some,resets]
      · simp only [if_neg changed,restore,counts,resets,limits]
        rw [Decidable.not_not.mp changed]
    · rw [if_neg full]
      refine ⟨?_,stored.alarmed⟩
      by_cases changed : object.memory.limit ≠ request.maxRequests
      · simp only [if_pos changed,restore,Option.getD_some,resets]
      · simp only [if_neg changed,restore,Option.getD_some,resets,limits]
        rw [Decidable.not_not.mp changed]

theorem window_opened (idle : active (windowOf history) now = none) (windowSeconds : Nat) (allowed : Bool) :
    windowOf (.request now windowSeconds allowed :: history) = some ⟨now+windowSeconds*1000,count allowed⟩ := by
  simp only [windowOf,idle]

theorem window_running (running : active (windowOf history) now = some w) (windowSeconds : Nat) (allowed : Bool) :
    windowOf (.request now windowSeconds allowed :: history) = some { w with allowed := w.allowed+count allowed } := by
  simp only [windowOf,running]

-- What a request is told, and the window after it.
theorem increment_window (counts : Counts history clock object.memory) (later : clock ≤ now) (request : IncrementRequest)
    (done : Incremented object now request answer memory) :
    memory.resetAt ≠ 0 ∧
    windowOf (.request now request.windowSeconds answer.allowed :: history) = some ⟨memory.resetAt,memory.count⟩ ∧
    (answer.allowed = true ↔ ∀ w, active (windowOf history) now = some w → w.allowed < request.maxRequests) ∧
    answer.remaining = max 0 ((request.maxRequests : Int)-memory.count) ∧ answer.resetAt = memory.resetAt ∧
    answer.limit = request.maxRequests := by
  have some := request.max_positive
  have length := request.window_positive
  cases done with
  | opened expired =>
    have idle := counts_expired counts later expired
    refine ⟨?_,window_opened idle _ _,⟨?_,fun _ => rfl⟩,?_,rfl,rfl⟩
    · show now+request.windowSeconds*1000 ≠ 0
      omega
    · intro _ w found
      rw [idle] at found
      cases found
    · show (request.maxRequests : Int)-1 = max 0 ((request.maxRequests : Int)-(1 : Nat))
      omega
  | rejected running full =>
    have inside := counts_running counts running
    refine ⟨(not_or.mp running).1,window_running inside _ _,⟨fun allowed => (by cases allowed),?_⟩,?_,rfl,rfl⟩
    · intro room
      have less : object.memory.count < request.maxRequests := room _ inside
      omega
    · show (0 : Int) = max 0 ((request.maxRequests : Int)-(object.memory.count : Nat))
      omega
  | counted running room =>
    have inside := counts_running counts running
    refine ⟨(not_or.mp running).1,window_running inside _ _,⟨?_,fun _ => rfl⟩,?_,rfl,rfl⟩
    · intro _ w found
      obtain rfl : _ = w := Option.some.inj (inside.symm.trans found)
      exact room
    · show (request.maxRequests : Int)-(object.memory.count+1 : Nat) =
        max 0 ((request.maxRequests : Int)-(object.memory.count+1 : Nat))
      omega

-- The object as it was last awake.
def memoryOf (s : State) : Memory := if s.awake then s.object.memory else restore s.object.storage

structure Kept (s : State) : Prop where
  stored : Stored s.object (memoryOf s)
  counts : Counts s.history s.clock (memoryOf s)

theorem stored_cleared (object : RateLimiterDO) : Stored (resetCounter object) cleared :=
  ⟨rfl,fun nonzero => absurd rfl nonzero⟩

theorem counts_cleared (past : ∀ w, windowOf history = some w → w.ends < clock) : Counts history clock cleared :=
  ⟨fun _ => past,fun nonzero => absurd rfl nonzero⟩

theorem kept_fresh : Kept fresh := by
  refine ⟨stored_cleared fresh.object,counts_cleared ?_⟩
  intro w none
  cases none

theorem counts_later (counts : Counts history clock memory) (later : clock ≤ now) : Counts history now memory :=
  ⟨fun zero w left => Nat.lt_of_lt_of_le (counts.closed zero w left) later,counts.opened⟩

theorem kept_step (kept : Kept s) (stepped : step s event = some t) : Kept t := by
  obtain ⟨stored,counts⟩ := kept
  cases event with
  | increment now maxRequests windowSeconds =>
    simp only [step] at stepped
    split at stepped
    · rename_i ready
      obtain ⟨awake,later⟩ := ready
      have memory : memoryOf s = s.object.memory := if_pos awake
      rw [memory] at stored counts
      cases parsed : IncrementRequest.safeParse maxRequests windowSeconds with
      | none =>
        simp only [parsed] at stepped
        cases stepped
        have same : memoryOf { s with clock := now } = s.object.memory := if_pos awake
        exact ⟨same ▸ stored,same ▸ counts_later counts later⟩
      | some request =>
        simp only [parsed] at stepped
        cases stepped
        obtain ⟨nonzero,window,-⟩ := increment_window counts later request (increment_cases s.object now request)
        exact ⟨increment_stored stored now request,⟨fun zero => absurd zero nonzero,fun _ => window⟩⟩
    · cases stepped
  | reset now =>
    simp only [step] at stepped
    split at stepped
    · cases stepped
      refine ⟨stored_cleared s.object,counts_cleared ?_⟩
      intro w none
      cases none
    · cases stepped
  | alarm now =>
    simp only [step] at stepped
    split at stepped
    · rename_i ready
      obtain ⟨awake,later,due⟩ := ready
      have memory : memoryOf s = s.object.memory := if_pos awake
      rw [memory] at stored counts
      cases stepped
      have same : memoryOf ⟨resetCounter { s.object with alarm := none },s.awake,now,s.history⟩ = cleared := if_pos awake
      refine ⟨same ▸ stored_cleared _,same ▸ counts_cleared ?_⟩
      -- the alarm comes a second after the window
      intro w left
      by_cases zero : s.object.memory.resetAt = 0
      · exact Nat.lt_of_lt_of_le (counts.closed zero w left) later
      · rw [stored.alarmed zero,Option.any_some,decide_eq_true_eq] at due
        rw [counts.opened zero] at left
        cases left
        show s.object.memory.resetAt < now
        omega
    · cases stepped
  | hibernate =>
    simp only [step] at stepped
    split at stepped
    · rename_i awake
      have memory : memoryOf s = s.object.memory := if_pos awake
      rw [memory] at stored counts
      cases stepped
      have same : memoryOf ⟨{ s.object with memory := cleared },false,s.clock,s.history⟩ = s.object.memory := stored.restored
      exact ⟨same ▸ ⟨stored.restored,stored.alarmed⟩,same ▸ counts⟩
    · cases stepped
  | restore =>
    simp only [step] at stepped
    split at stepped
    · cases stepped
    · rename_i asleep
      have memory : memoryOf s = restore s.object.storage := if_neg asleep
      rw [memory] at stored counts
      cases stepped
      exact ⟨⟨rfl,stored.alarmed⟩,counts⟩

theorem kept_run (ran : run step fresh events = some s) : Kept s := run_keeps Kept (fun _ _ _ => kept_step) kept_fresh ran

-- Over every run, through hibernation: a request is allowed just when its window
-- has room for it, it is told what is left, never less than nothing, and a
-- restore brings back what memory held.
theorem rate_limiter_exact (ran : run step fresh events = some s) :
    (∀ now request, s.awake = true → s.clock ≤ now →
      ∃ w, windowOf (.request now request.windowSeconds (increment s.object now request).1.allowed :: s.history) = some w ∧
        ((increment s.object now request).1.allowed = true ↔
          active (windowOf s.history) now = none ∨
            ∃ before, active (windowOf s.history) now = some before ∧ before.allowed < request.maxRequests) ∧
        (increment s.object now request).1.remaining = max 0 ((request.maxRequests : Int)-w.allowed) ∧
        (increment s.object now request).1.resetAt = w.ends ∧
        (increment s.object now request).1.limit = request.maxRequests) ∧
    (∀ asleep awake, step s .hibernate = some asleep → step asleep .restore = some awake →
      awake.object.memory = s.object.memory) := by
  obtain ⟨stored,counts⟩ := kept_run ran
  refine ⟨?_,?_⟩
  · intro now request awake later
    rw [show memoryOf s = s.object.memory from if_pos awake] at counts
    obtain ⟨-,window,allowed,remaining,resetAt,limit⟩ :=
      increment_window counts later request (increment_cases s.object now request)
    refine ⟨_,window,?_,remaining,resetAt,limit⟩
    rw [allowed]
    cases active (windowOf s.history) now with
    | none => simp
    | some w => simp
  · intro asleep awake slept woke
    simp only [step] at slept
    split at slept
    · rename_i up
      rw [show memoryOf s = s.object.memory from if_pos up] at stored
      cases slept
      cases woke
      exact stored.restored
    · cases slept

def three : IncrementRequest := ⟨3,60,by decide,by decide⟩
def one : IncrementRequest := ⟨1,60,by decide,by decide⟩

-- Two requests under a limit of three, a night's sleep, and one under a limit
-- of one in the same window.
def lowered : List Event :=
  [.increment 0 (some 3) (some 60),.increment 10 (some 3) (some 60),.hibernate,.restore]

theorem lowered_exact : ∃ s, run step fresh lowered = some s ∧
    (∀ now request, s.awake = true → s.clock ≤ now →
      ∃ w, windowOf (.request now request.windowSeconds (increment s.object now request).1.allowed :: s.history) = some w ∧
        ((increment s.object now request).1.allowed = true ↔
          active (windowOf s.history) now = none ∨
            ∃ before, active (windowOf s.history) now = some before ∧ before.allowed < request.maxRequests) ∧
        (increment s.object now request).1.remaining = max 0 ((request.maxRequests : Int)-w.allowed) ∧
        (increment s.object now request).1.resetAt = w.ends ∧
        (increment s.object now request).1.limit = request.maxRequests) ∧
    (∀ asleep awake, step s .hibernate = some asleep → step asleep .restore = some awake →
      awake.object.memory = s.object.memory) := by
  have ran : run step fresh lowered = some _ := rfl
  exact ⟨_,ran,rate_limiter_exact ran⟩

-- The rejected request is told that nothing remains where the difference is
-- minus one.
theorem lowered_remaining : ¬∀ events s now request w, run step fresh events = some s → s.awake = true → s.clock ≤ now →
    windowOf (.request now request.windowSeconds (increment s.object now request).1.allowed :: s.history) = some w →
    (increment s.object now request).1.remaining = (request.maxRequests : Int)-w.allowed := by
  intro always
  have told := always lowered _ 20 one _ rfl rfl (by decide) rfl
  cases told

end AdblockCompiler.RateLimiter
