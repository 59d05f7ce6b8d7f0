import AdblockCompiler.Authentication
import AdblockCompiler.RateLimiter

-- checkRateLimitTiered: requests side by side, counted for their identity by its
-- RateLimiterDO, or in KV where the object cannot be reached. Times are
-- milliseconds.
namespace AdblockCompiler.TieredRateLimits
open JsText AuthContexts Schedules

-- none is Infinity.
def TIER_RATE_LIMITS : UserTier → Option Nat
  | .Anonymous => some 10
  | .Free => some 60
  | .Pro => some 300
  | .Admin => none
  | .PayAsYouGo => some 120
  | .Vendor => some 600
  | .Enterprise => none

def RATE_LIMIT_WINDOW : Nat := 60
def windowMs : Nat := RATE_LIMIT_WINDOW*1000

-- The stricter of the tier's limit and the key's own. A negative one does not
-- count.
def maxRequests (authContext : AuthContext) : Option Nat :=
  let maxRequests := TIER_RATE_LIMITS authContext.tier
  match authContext.authMethod,authContext.apiKeyRateLimit with
  | .apiKey,some (.ofNat own) => some ((maxRequests.map (min · own)).getD own)
  | _,_ => maxRequests

-- A user id that is empty is none.
def user (authContext : AuthContext) : Option Text := authContext.userId.filter (· ≠ [])

def identity (ip : Text) (authContext : AuthContext) : Text :=
  match user authContext with
  | some userId => "user:".toList ++ userId
  | none => "ip:".toList ++ ip

def kvKey (ip : Text) (authContext : AuthContext) : Text := "ratelimit:".toList ++ identity ip authContext

-- Requests are counted together where they have one user, or one address and no
-- user. A user is never counted with an address.
theorem kvKey_shared : kvKey ip authContext = kvKey address other ↔
    user authContext = user other ∧ (user authContext = none → ip = address) := by
  refine (List.append_right_inj _).trans ?_
  unfold identity
  cases user authContext with
  | none =>
    cases user other with
    | none => simp
    | some userId => simp
  | some userId =>
    cases user other with
    | none => simp
    | some userId => simp

structure IRateLimitResult where
  allowed : Bool
  limit : Option Nat
  remaining : Option Int
  resetAt : Nat
  deriving DecidableEq, Repr

structure RateLimitData where
  count : Nat
  resetAt : Nat
  deriving DecidableEq, Repr

-- What the fallback does with what it got: it is refused, or has data to put.
inductive Verdict where
  | refused (resetAt : Nat)
  | counted (data : RateLimitData)

def fallback (maxRequests now : Nat) : Option RateLimitData → Verdict
  | none => .counted ⟨1,now+windowMs⟩
  | some data =>
    if now > data.resetAt then .counted ⟨1,now+windowMs⟩
    else if data.count ≥ maxRequests then .refused data.resetAt
    else .counted ⟨data.count+1,data.resetAt⟩

inductive Path where
  | tier | durable | kv
  deriving DecidableEq, Repr

-- Where a request is between its awaits. now is what it read as Date.now(), from
-- one clock for all, and answeredAt is history. One whose get or put throws stays
-- where it is.
inductive Stage where
  | asking
  | unserved
  | reading (now : Nat)
  | writing (now : Nat) (data : RateLimitData)
  | answered (path : Path) (now answeredAt : Nat) (result : IRateLimitResult)
  deriving DecidableEq, Repr

structure Request where
  ip : Text
  authContext : AuthContext
  stage : Stage
  deriving DecidableEq, Repr

def Request.key (request : Request) : Text := kvKey request.ip request.authContext
def Request.limit (request : Request) : Option Nat := maxRequests request.authContext

-- bound says whether env.RATE_LIMITER_DO is there.
def firstStage (bound : Bool) (clock : Nat) : Option Nat → Stage
  | some 0 => .answered .tier clock clock ⟨false,some 0,some 0,clock+windowMs⟩
  | none => .answered .tier clock clock ⟨true,none,none,0⟩
  | some _ => if bound then .asking else .unserved

-- What the object answers: none where it does not accept the body.
def checkRateLimitWithDO (limiter : RateLimiter.State) (now : Nat) (maxRequests : Option Nat) : Option IRateLimitResult :=
  (RateLimiter.IncrementRequest.safeParse (maxRequests.map Int.ofNat) (some RATE_LIMIT_WINDOW)).map fun request =>
    let result := (RateLimiter.increment limiter.object now request).1
    ⟨result.allowed,some result.limit,some result.remaining,result.resetAt⟩

-- kv is all that was ever put under a key, latest first.
structure State where
  clock : Nat
  limiters : Text → RateLimiter.State
  kv : Text → List RateLimitData
  requests : List Request

def started : State := ⟨0,fun _ => RateLimiter.fresh,fun _ => [],[]⟩

-- What happens to an object between its requests.
inductive Upkeep where
  | reset | alarm | hibernate | restore
  deriving DecidableEq, Repr

def Upkeep.event (now : Nat) : Upkeep → RateLimiter.Event
  | .reset => .reset now
  | .alarm => .alarm now
  | .hibernate => .hibernate
  | .restore => .restore

-- A get sees any of the values put so far, or none: KV is eventually
-- consistent and values expire.
inductive Event where
  | tick (now : Nat)
  | request (ip : Text) (authContext : AuthContext)
  | increment (i : Nat) (arrives : Bool)
  | unreachable (i : Nat)
  | fallback (i : Nat)
  | get (i : Nat) (seen : Option Nat)
  | put (i : Nat)
  | upkeep (key : Text) (upkeep : Upkeep)

def State.move (s : State) (i : Nat) (request : Request) (stage : Stage) : State :=
  { s with requests := s.requests.set i { request with stage := stage } }

def State.keep (s : State) (key : Text) (limiter : RateLimiter.State) : State :=
  { s with limiters := Function.update s.limiters key limiter }

def State.store (s : State) (key : Text) (data : RateLimitData) : State :=
  { s with kv := Function.update s.kv key (data :: s.kv key) }

def counted (maxRequests : Nat) (data : RateLimitData) : IRateLimitResult :=
  ⟨true,some maxRequests,some ((maxRequests : Int)-data.count),data.resetAt⟩

def asked (arrives : Bool) (clock : Nat) : Option IRateLimitResult → Stage
  | some result => if arrives then .answered .durable clock clock result else .unserved
  | none => .unserved

def read (maxRequests now clock : Nat) (data : Option RateLimitData) : Stage :=
  match fallback maxRequests now data with
  | .refused resetAt => .answered .kv now clock ⟨false,some maxRequests,some 0,resetAt⟩
  | .counted data => .writing now data

def step (bound : Bool) (s : State) : Event → Option State
  | .tick now => if s.clock ≤ now then some { s with clock := now } else none
  | .request ip authContext =>
    some { s with requests := s.requests ++ [⟨ip,authContext,firstStage bound s.clock (maxRequests authContext)⟩] }
  | .increment i arrives =>
    match s.requests[i]? with
    | some ⟨ip,authContext,.asking⟩ =>
      let request : Request := ⟨ip,authContext,.asking⟩
      let limiter := s.limiters request.key
      (RateLimiter.step limiter (.increment s.clock (request.limit.map Int.ofNat) (some RATE_LIMIT_WINDOW))).map fun after =>
        (s.move i request (asked arrives s.clock (checkRateLimitWithDO limiter s.clock request.limit))).keep request.key after
    | _ => none
  | .unreachable i =>
    match s.requests[i]? with
    | some ⟨ip,authContext,.asking⟩ => some (s.move i ⟨ip,authContext,.asking⟩ .unserved)
    | _ => none
  | .fallback i =>
    match s.requests[i]? with
    | some ⟨ip,authContext,.unserved⟩ => some (s.move i ⟨ip,authContext,.unserved⟩ (.reading s.clock))
    | _ => none
  | .get i seen =>
    match s.requests[i]? with
    | some ⟨ip,authContext,.reading now⟩ =>
      let request : Request := ⟨ip,authContext,.reading now⟩
      request.limit.map fun maxRequests =>
        s.move i request (read maxRequests now s.clock (seen.bind ((s.kv request.key)[·]?)))
    | _ => none
  | .put i =>
    match s.requests[i]? with
    | some ⟨ip,authContext,.writing now data⟩ =>
      let request : Request := ⟨ip,authContext,.writing now data⟩
      request.limit.map fun maxRequests =>
        (s.move i request (.answered .kv now s.clock (counted maxRequests data))).store request.key data
    | _ => none
  | .upkeep key upkeep =>
    (RateLimiter.step (s.limiters key) (upkeep.event s.clock)).map (s.keep key)

-- The requests an object has allowed since a time.
def allowedAt (since : Nat) : RateLimiter.Entry → Bool
  | .request now _ allowed => allowed && since ≤ now
  | .reset => false

def allowedSince (history : List RateLimiter.Entry) (since : Nat) : Nat := history.countP (allowedAt since)

-- The requests of a key that KV has allowed in the window ending at resetAt.
def Request.servedIn (key : Text) (resetAt : Nat) (request : Request) : Bool :=
  request.key = key && match request.stage with
    | .answered .kv _ answeredAt result => result.allowed && result.resetAt = resetAt && resetAt ≤ answeredAt+windowMs
    | _ => false

def served (requests : List Request) (key : Text) (resetAt : Nat) : Nat := requests.countP (Request.servedIn key resetAt)

-- An object whose requests all have the same window has counted what it allowed
-- within it.
structure Timely (history : List RateLimiter.Entry) (clock : Nat) : Prop where
  ends : ∀ w, RateLimiter.windowOf history = some w → w.ends ≤ clock+windowMs
  allowed : ∀ w, RateLimiter.windowOf history = some w → w.allowed ≤ allowedSince history (w.ends-windowMs)

theorem timely_none (closed : RateLimiter.windowOf history = none) : Timely history clock where
  ends := by
    intro w left
    rw [closed] at left
    cases left
  allowed := by
    intro w left
    rw [closed] at left
    cases left

theorem Timely.later (timely : Timely history clock) (later : clock ≤ now) : Timely history now where
  ends := by
    intro w left
    have before := timely.ends w left
    omega
  allowed := timely.allowed

theorem allowedSince_request (since : Nat) (history : List RateLimiter.Entry) (now windowSeconds : Nat) (allowed : Bool) (inside : since ≤ now) :
    allowedSince (.request now windowSeconds allowed :: history) since = allowedSince history since+RateLimiter.count allowed := by
  cases allowed with
  | false => simp [allowedSince,allowedAt,RateLimiter.count]
  | true => simp [allowedSince,allowedAt,RateLimiter.count,inside]

theorem allowedSince_cons (entry : RateLimiter.Entry) (history : List RateLimiter.Entry) (since : Nat) :
    allowedSince history since ≤ allowedSince (entry :: history) since := List.Sublist.countP_le (List.sublist_cons_self _ _)

theorem timely_request (timely : Timely history clock) (later : clock ≤ now) (allowed : Bool) :
    Timely (.request now RATE_LIMIT_WINDOW allowed :: history) now := by
  cases found : RateLimiter.active (RateLimiter.windowOf history) now with
  | none =>
    have opened := RateLimiter.window_opened found RATE_LIMIT_WINDOW allowed
    refine ⟨?_,?_⟩
    · intro w left
      rw [opened] at left
      cases left
      exact Nat.le_refl _
    · intro w left
      rw [opened] at left
      cases left
      show RateLimiter.count allowed ≤ allowedSince _ (now+windowMs-windowMs)
      rw [Nat.add_sub_cancel,allowedSince_request now history now _ allowed (Nat.le_refl _)]
      exact Nat.le_add_left _ _
  | some window =>
    obtain ⟨left,-⟩ := Option.filter_eq_some_iff.mp found
    have running := RateLimiter.window_running found RATE_LIMIT_WINDOW allowed
    have ends := timely.ends window left
    have counted := timely.allowed window left
    refine ⟨?_,?_⟩
    · intro w left
      rw [running] at left
      cases left
      show window.ends ≤ now+windowMs
      omega
    · intro w left
      rw [running] at left
      cases left
      show window.allowed+RateLimiter.count allowed ≤ allowedSince _ (window.ends-windowMs)
      rw [allowedSince_request _ history now _ allowed (by omega)]
      omega

structure Limited (limiter : RateLimiter.State) : Prop where
  kept : RateLimiter.Kept limiter
  timely : Timely limiter.history limiter.clock

theorem limited_fresh : Limited RateLimiter.fresh := ⟨RateLimiter.kept_fresh,timely_none rfl⟩

theorem upkeep_history (upkeep : Upkeep) (stepped : RateLimiter.step limiter (upkeep.event now) = some after) :
    limiter.clock ≤ after.clock ∧ (after.history = limiter.history ∨ after.history = .reset :: limiter.history) := by
  cases upkeep with
  | reset =>
    simp only [Upkeep.event,RateLimiter.step] at stepped
    split at stepped
    · rename_i ready
      cases stepped
      exact ⟨ready.2,.inr rfl⟩
    · cases stepped
  | alarm =>
    simp only [Upkeep.event,RateLimiter.step] at stepped
    split at stepped
    · rename_i ready
      cases stepped
      exact ⟨ready.2.1,.inl rfl⟩
    · cases stepped
  | hibernate =>
    simp only [Upkeep.event,RateLimiter.step] at stepped
    split at stepped
    · cases stepped
      exact ⟨Nat.le_refl _,.inl rfl⟩
    · cases stepped
  | restore =>
    simp only [Upkeep.event,RateLimiter.step] at stepped
    split at stepped
    · cases stepped
    · cases stepped
      exact ⟨Nat.le_refl _,.inl rfl⟩

theorem limited_upkeep (limited : Limited limiter) (upkeep : Upkeep)
    (stepped : RateLimiter.step limiter (upkeep.event now) = some after) :
    Limited after ∧ ∀ since, allowedSince limiter.history since ≤ allowedSince after.history since := by
  have kept := RateLimiter.kept_step limited.kept stepped
  obtain ⟨later,same | reset⟩ := upkeep_history upkeep stepped
  · rw [same]
    exact ⟨⟨kept,same ▸ limited.timely.later later⟩,fun _ => Nat.le_refl _⟩
  · rw [reset]
    exact ⟨⟨kept,reset ▸ timely_none rfl⟩,allowedSince_cons _ _⟩

theorem parsed_limit (positive : 0 < limit) :
    RateLimiter.IncrementRequest.safeParse ((some limit).map Int.ofNat) (some RATE_LIMIT_WINDOW) =
      some ⟨limit,RATE_LIMIT_WINDOW,positive,by decide⟩ := dif_pos positive

theorem refused_full (done : RateLimiter.Incremented object now request result memory) (refused : result.allowed = false) :
    now ≤ result.resetAt ∧ request.maxRequests ≤ memory.count := by
  cases done with
  | opened expired => cases refused
  | rejected running full => exact ⟨Nat.le_of_not_lt (not_or.mp running).2,full⟩
  | counted running room => cases refused

-- What an object tells a request, and where it refuses it.
theorem limited_increment (limited : Limited limiter) (positive : 0 < limit)
    (stepped : RateLimiter.step limiter (.increment now ((some limit).map Int.ofNat) (some RATE_LIMIT_WINDOW)) = some after) :
    Limited after ∧ (∀ since, allowedSince limiter.history since ≤ allowedSince after.history since) ∧
    ∃ result, checkRateLimitWithDO limiter now (some limit) = some result ∧ result.limit = some limit ∧
      (∀ left, result.remaining = some left → 0 ≤ left) ∧
      (result.allowed = false → now ≤ result.resetAt ∧ limit ≤ allowedSince after.history (result.resetAt-windowMs)) := by
  have kept := RateLimiter.kept_step limited.kept stepped
  simp only [RateLimiter.step,parsed_limit positive] at stepped
  split at stepped
  · rename_i ready
    obtain ⟨awake,later⟩ := ready
    cases stepped
    have timely := timely_request limited.timely later (RateLimiter.increment limiter.object now ⟨limit,RATE_LIMIT_WINDOW,positive,by decide⟩).1.allowed
    refine ⟨⟨kept,timely⟩,allowedSince_cons _ _,_,by rw [checkRateLimitWithDO,parsed_limit positive]; rfl,?_⟩
    have counts := limited.kept.counts
    rw [show RateLimiter.memoryOf limiter = limiter.object.memory from if_pos awake] at counts
    have done := RateLimiter.increment_cases limiter.object now ⟨limit,RATE_LIMIT_WINDOW,positive,by decide⟩
    obtain ⟨-,window,-,remaining,resetAt,told⟩ := RateLimiter.increment_window counts later _ done
    refine ⟨congrArg some told,?_,?_⟩
    · intro left here
      cases here
      rw [remaining]
      exact le_max_left _ _
    · intro refused
      obtain ⟨inside,full⟩ := refused_full done refused
      have counted := timely.allowed _ window
      rw [←resetAt] at counted
      exact ⟨inside,full.trans counted⟩
  · cases stepped

-- A request is refused while its window lasts, and for as many of its identity
-- as its limit is: allowed by the object, or by KV.
structure Full (s : State) (key : Text) (limit now resetAt : Nat) : Prop where
  running : now ≤ resetAt
  counted : limit ≤ allowedSince (s.limiters key).history (resetAt-windowMs) ∨ limit ≤ served s.requests key resetAt

structure Answered (s : State) (key : Text) (most : Option Nat) (now : Nat) (result : IRateLimitResult) : Prop where
  limit : result.limit = most
  remaining : ∀ left, result.remaining = some left → 0 ≤ left
  disabled : most = some 0 → result.allowed = false
  refused : result.allowed = false →
    most = some 0 ∨ ∃ limit, most = some limit ∧ 0 < limit ∧ Full s key limit now result.resetAt

-- Data in KV: its window is not ahead of the clock by more than its length, and
-- as many requests were allowed in it as it counts.
structure Recorded (s : State) (key : Text) (data : RateLimitData) : Prop where
  ends : data.resetAt ≤ s.clock+windowMs
  counted : data.count ≤ served s.requests key data.resetAt

structure Written (s : State) (key : Text) (limit : Nat) (data : RateLimitData) : Prop where
  ends : data.resetAt ≤ s.clock+windowMs
  counted : data.count ≤ served s.requests key data.resetAt+1
  room : data.count ≤ limit

def StageSound (s : State) (key : Text) (most : Option Nat) : Stage → Prop
  | .asking => ∃ limit, most = some limit ∧ 0 < limit
  | .unserved => ∃ limit, most = some limit ∧ 0 < limit
  | .reading now => now ≤ s.clock ∧ ∃ limit, most = some limit ∧ 0 < limit
  | .writing _ data => ∃ limit, most = some limit ∧ 0 < limit ∧ Written s key limit data
  | .answered _ now _ result => Answered s key most now result

structure Sound (s : State) : Prop where
  limited : ∀ key, Limited (s.limiters key)
  recorded : ∀ key, ∀ data ∈ s.kv key, Recorded s key data
  staged : ∀ (i : Nat) request, s.requests[i]? = some request → StageSound s request.key request.limit request.stage

-- What a step leaves: the clock and the counts do not go back.
structure Later (s t : State) : Prop where
  clock : s.clock ≤ t.clock
  allowed : ∀ key since, allowedSince (s.limiters key).history since ≤ allowedSince (t.limiters key).history since
  served : ∀ key resetAt, served s.requests key resetAt ≤ served t.requests key resetAt

theorem Full.later (full : Full s key limit now resetAt) (later : Later s t) : Full t key limit now resetAt :=
  ⟨full.running,full.counted.imp (·.trans (later.allowed _ _)) (·.trans (later.served _ _))⟩

theorem Answered.later (answered : Answered s key most now result) (later : Later s t) : Answered t key most now result where
  limit := answered.limit
  remaining := answered.remaining
  disabled := answered.disabled
  refused := by
    intro refused
    obtain zero | ⟨limit,same,positive,full⟩ := answered.refused refused
    · exact .inl zero
    · exact .inr ⟨limit,same,positive,full.later later⟩

theorem Recorded.later (recorded : Recorded s key data) (later : Later s t) : Recorded t key data :=
  ⟨recorded.ends.trans (Nat.add_le_add_right later.clock _),recorded.counted.trans (later.served _ _)⟩

theorem Written.later (written : Written s key limit data) (later : Later s t) : Written t key limit data :=
  ⟨written.ends.trans (Nat.add_le_add_right later.clock _),written.counted.trans (Nat.add_le_add_right (later.served _ _) _),written.room⟩

theorem staged_later (later : Later s t) (sound : StageSound s key most stage) : StageSound t key most stage := by
  cases stage with
  | asking => exact sound
  | unserved => exact sound
  | reading now => exact ⟨sound.1.trans later.clock,sound.2⟩
  | writing now data =>
    obtain ⟨limit,same,positive,written⟩ := sound
    exact ⟨limit,same,positive,written.later later⟩
  | answered path now answeredAt result => exact Answered.later sound later

-- A request that is not answered yet counts nowhere.
theorem served_set {request after : Request} (found : requests[i]? = some request) (waiting : request.servedIn key resetAt = false) :
    served (requests.set i after) key resetAt = served requests key resetAt + if after.servedIn key resetAt then 1 else 0 := by
  obtain ⟨inside,rfl⟩ := List.getElem?_eq_some_iff.mp found
  rw [served,List.countP_set inside,waiting]
  rfl

theorem served_move {request after : Request} (found : requests[i]? = some request) (waiting : request.servedIn key resetAt = false) :
    served requests key resetAt ≤ served (requests.set i after) key resetAt :=
  (served_set found waiting).symm ▸ Nat.le_add_right _ _

theorem later_moved {request : Request} (found : s.requests[i]? = some request) (waiting : ∀ key resetAt, request.servedIn key resetAt = false)
    (stage : Stage) : Later s (s.move i request stage) :=
  ⟨Nat.le_refl _,fun _ _ => Nat.le_refl _,fun key resetAt => served_move found (waiting key resetAt)⟩

theorem staged_set (sound : Sound s) (later : Later s t) (moved : t.requests = s.requests.set i after)
    (staged : StageSound t after.key after.limit after.stage) (j : Nat) (request : Request) (found : t.requests[j]? = some request) :
    StageSound t request.key request.limit request.stage := by
  rw [moved,List.getElem?_set] at found
  split at found
  · split at found
    · cases found
      exact staged
    · cases found
  · exact staged_later later (sound.staged j request found)

theorem moved_sound (sound : Sound s) {request : Request} (found : s.requests[i]? = some request)
    (waiting : ∀ key resetAt, request.servedIn key resetAt = false) (staged : StageSound s request.key request.limit stage) :
    Sound (s.move i request stage) := by
  have later := later_moved found waiting stage
  refine ⟨sound.limited,?_,staged_set sound later rfl (staged_later later staged)⟩
  intro key data member
  exact (sound.recorded key data member).later later

theorem limited_update {limiters : Text → RateLimiter.State} (limited : ∀ key, Limited (limiters key)) (key : Text) (after : Limited limiter) :
    ∀ other, Limited (Function.update limiters key limiter other) := by
  intro other
  by_cases same : other = key
  · subst same
    rwa [Function.update_self]
  · rw [Function.update_of_ne same]
    exact limited other

theorem allowed_update {limiters : Text → RateLimiter.State} {limiter : RateLimiter.State} (key : Text)
    (grown : ∀ since, allowedSince (limiters key).history since ≤ allowedSince limiter.history since) (other : Text) (since : Nat) :
    allowedSince (limiters other).history since ≤ allowedSince (Function.update limiters key limiter other).history since := by
  by_cases same : other = key
  · subst same
    rw [Function.update_self]
    exact grown since
  · rw [Function.update_of_ne same]

theorem first_staged (s : State) (bound : Bool) (key : Text) (most : Option Nat) : StageSound s key most (firstStage bound s.clock most) := by
  cases most with
  | none => exact ⟨rfl,fun _ none => (by cases none),fun zero => (by cases zero),fun refused => (by cases refused)⟩
  | some limit =>
    cases limit with
    | zero =>
      refine ⟨rfl,?_,fun _ => rfl,fun _ => .inl rfl⟩
      intro left zero
      cases zero
      exact Int.le_refl _
    | succ n =>
      cases bound with
      | true => exact ⟨n+1,rfl,Nat.succ_pos n⟩
      | false => exact ⟨n+1,rfl,Nat.succ_pos n⟩

-- Both ways through the fallback that count, and the one that refuses.
theorem read_staged (positive : 0 < limit) (before : now ≤ s.clock) (recorded : ∀ data, found = some data → Recorded s key data) :
    StageSound s key (some limit) (read limit now s.clock found) := by
  have fresh : StageSound s key (some limit) (.writing now ⟨1,now+windowMs⟩) :=
    ⟨limit,rfl,positive,Nat.add_le_add_right before _,Nat.le_add_left _ _,positive⟩
  cases found with
  | none => exact fresh
  | some data =>
    have known := recorded data rfl
    unfold read fallback
    by_cases expired : now > data.resetAt
    · simp only [if_pos expired]
      exact fresh
    · by_cases full : data.count ≥ limit
      · simp only [if_neg expired,if_pos full]
        refine ⟨rfl,?_,fun _ => rfl,fun _ => .inr ⟨limit,rfl,positive,Nat.le_of_not_lt expired,.inr (full.trans known.counted)⟩⟩
        intro left zero
        cases zero
        exact Int.le_refl _
      · simp only [if_neg expired,if_neg full]
        exact ⟨limit,rfl,positive,known.ends,Nat.add_le_add_right known.counted 1,Nat.lt_of_not_le full⟩

theorem sound_started : Sound started := by
  refine ⟨fun _ => limited_fresh,?_,?_⟩
  · intro key data member
    cases member
  · intro i request found
    cases found

theorem sound_tick (sound : Sound s) (later : s.clock ≤ now) : Sound { s with clock := now } := by
  have grown : Later s { s with clock := now } := ⟨later,fun _ _ => Nat.le_refl _,fun _ _ => Nat.le_refl _⟩
  refine ⟨sound.limited,?_,?_⟩
  · intro key data member
    exact (sound.recorded key data member).later grown
  · intro i request found
    exact staged_later grown (sound.staged i request found)

theorem sound_request (sound : Sound s) (bound : Bool) (ip : Text) (authContext : AuthContext) :
    Sound { s with requests := s.requests ++ [⟨ip,authContext,firstStage bound s.clock (maxRequests authContext)⟩] } := by
  have grown : Later s { s with requests := s.requests ++ [⟨ip,authContext,firstStage bound s.clock (maxRequests authContext)⟩] } :=
    ⟨Nat.le_refl _,fun _ _ => Nat.le_refl _,fun _ _ => List.Sublist.countP_le (List.sublist_append_left _ _)⟩
  refine ⟨sound.limited,?_,?_⟩
  · intro key data member
    exact (sound.recorded key data member).later grown
  · intro i request found
    rw [List.getElem?_append] at found
    split at found
    · exact staged_later grown (sound.staged i request found)
    · obtain rfl := List.mem_singleton.mp (List.mem_of_getElem? found)
      exact staged_later grown (first_staged s bound _ _)

theorem sound_upkeep (sound : Sound s) (upkeep : Upkeep)
    (stepped : RateLimiter.step (s.limiters key) (upkeep.event s.clock) = some limiter) : Sound (s.keep key limiter) := by
  obtain ⟨limited,allowed⟩ := limited_upkeep (sound.limited key) upkeep stepped
  have grown : Later s (s.keep key limiter) := ⟨Nat.le_refl _,allowed_update key allowed,fun _ _ => Nat.le_refl _⟩
  refine ⟨limited_update sound.limited key limited,?_,?_⟩
  · intro other data member
    exact (sound.recorded other data member).later grown
  · intro i request found
    exact staged_later grown (sound.staged i request found)

theorem positive_enabled (most : maxRequests authContext = some limit) (positive : 0 < limit) (zero : maxRequests authContext = some 0) : False := by
  rw [most] at zero
  cases zero
  exact Nat.lt_irrefl 0 positive

-- Both where the answer arrives and where it is lost the object has counted.
theorem sound_increment (sound : Sound s) (found : s.requests[i]? = some ⟨ip,authContext,.asking⟩) (arrives : Bool)
    (stepped : RateLimiter.step (s.limiters (kvKey ip authContext))
      (.increment s.clock ((maxRequests authContext).map Int.ofNat) (some RATE_LIMIT_WINDOW)) = some limiter) :
    Sound ((s.move i ⟨ip,authContext,.asking⟩ (asked arrives s.clock
      (checkRateLimitWithDO (s.limiters (kvKey ip authContext)) s.clock (maxRequests authContext)))).keep (kvKey ip authContext) limiter) := by
  obtain ⟨limit,most,positive⟩ := sound.staged i _ found
  change maxRequests authContext = some limit at most
  rw [most] at stepped
  obtain ⟨limited,allowed,result,told,same,remaining,refused⟩ := limited_increment (sound.limited _) positive stepped
  rw [most,told]
  have moved := later_moved found (fun _ _ => Bool.and_false _) (asked arrives s.clock (some result))
  have grown : Later s ((s.move i ⟨ip,authContext,.asking⟩ (asked arrives s.clock (some result))).keep (kvKey ip authContext) limiter) :=
    ⟨Nat.le_refl _,allowed_update _ allowed,moved.served⟩
  refine ⟨limited_update sound.limited _ limited,?_,staged_set sound grown rfl ?_⟩
  · intro key data member
    exact (sound.recorded key data member).later grown
  · cases arrives with
    | false => exact ⟨limit,most,positive⟩
    | true =>
      refine ⟨same.trans most.symm,remaining,fun zero => (positive_enabled most positive zero).elim,?_⟩
      intro denied
      obtain ⟨inside,full⟩ := refused denied
      refine .inr ⟨limit,most,positive,inside,.inl ?_⟩
      show limit ≤ allowedSince (Function.update s.limiters (kvKey ip authContext) limiter (kvKey ip authContext)).history _
      rwa [Function.update_self]

theorem mem_store {s : State} {other : RateLimitData} (member : other ∈ (s.store key data).kv place) :
    (place = key ∧ other = data) ∨ other ∈ s.kv place := by
  simp only [State.store,Function.update_apply] at member
  split at member
  · rename_i same
    subst same
    exact (List.mem_cons.mp member).imp (⟨rfl,·⟩) id
  · exact .inr member

-- A put counts the request that made it.
theorem sound_put (sound : Sound s) (found : s.requests[i]? = some ⟨ip,authContext,.writing now data⟩)
    (most : maxRequests authContext = some limit) :
    Sound ((s.move i ⟨ip,authContext,.writing now data⟩ (.answered .kv now s.clock (counted limit data))).store (kvKey ip authContext) data) := by
  obtain ⟨same,given,positive,written⟩ := sound.staged i _ found
  obtain rfl : limit = same := Option.some.inj (most.symm.trans given)
  have waiting : ∀ key resetAt, Request.servedIn key resetAt ⟨ip,authContext,.writing now data⟩ = false := fun _ _ => Bool.and_false _
  have moved := later_moved found waiting (.answered .kv now s.clock (counted limit data))
  have grown : Later s ((s.move i ⟨ip,authContext,.writing now data⟩ (.answered .kv now s.clock (counted limit data))).store
    (kvKey ip authContext) data) := ⟨Nat.le_refl _,moved.allowed,moved.served⟩
  have itself : Request.servedIn (kvKey ip authContext) data.resetAt ⟨ip,authContext,.answered .kv now s.clock (counted limit data)⟩ = true := by
    simp [Request.servedIn,Request.key,counted,written.ends]
  have counts : served (s.requests.set i ⟨ip,authContext,.answered .kv now s.clock (counted limit data)⟩) (kvKey ip authContext) data.resetAt =
      served s.requests (kvKey ip authContext) data.resetAt+1 := by
    rw [served_set found (waiting _ _),if_pos itself]
  refine ⟨sound.limited,?_,staged_set sound grown rfl ?_⟩
  · intro place other member
    obtain ⟨rfl,rfl⟩ | old := mem_store member
    · exact ⟨written.ends,written.counted.trans (Nat.le_of_eq counts.symm)⟩
    · exact (sound.recorded place other old).later grown
  · refine ⟨most.symm,?_,fun zero => (positive_enabled most positive zero).elim,fun refused => (by cases refused)⟩
    intro left rest
    cases rest
    have room := written.room
    omega

theorem sound_step (sound : Sound s) (stepped : step bound s event = some t) : Sound t := by
  cases event with
  | tick now =>
    simp only [step] at stepped
    split at stepped
    · rename_i later
      cases stepped
      exact sound_tick sound later
    · cases stepped
  | request ip authContext =>
    cases stepped
    exact sound_request sound bound ip authContext
  | increment i arrives =>
    simp only [step] at stepped
    split at stepped
    · rename_i found
      obtain ⟨limiter,counted,rfl⟩ := Option.map_eq_some_iff.mp stepped
      exact sound_increment sound found arrives counted
    · cases stepped
  | unreachable i =>
    simp only [step] at stepped
    split at stepped
    · rename_i found
      cases stepped
      exact moved_sound sound found (fun _ _ => Bool.and_false _) (sound.staged i _ found)
    · cases stepped
  | fallback i =>
    simp only [step] at stepped
    split at stepped
    · rename_i found
      cases stepped
      exact moved_sound sound found (fun _ _ => Bool.and_false _) ⟨Nat.le_refl _,sound.staged i _ found⟩
    · cases stepped
  | get i seen =>
    simp only [step] at stepped
    split at stepped
    · rename_i ip authContext now found
      obtain ⟨limit,most,rfl⟩ := Option.map_eq_some_iff.mp stepped
      obtain ⟨before,same,given,positive⟩ := sound.staged i _ found
      obtain rfl : limit = same := Option.some.inj (most.symm.trans given)
      apply moved_sound sound found (fun _ _ => Bool.and_false _)
      rw [most]
      apply read_staged positive before
      intro data stored
      obtain ⟨place,-,there⟩ := Option.bind_eq_some_iff.mp stored
      exact sound.recorded _ data (List.mem_of_getElem? there)
    · cases stepped
  | put i =>
    simp only [step] at stepped
    split at stepped
    · rename_i found
      obtain ⟨limit,most,rfl⟩ := Option.map_eq_some_iff.mp stepped
      exact sound_put sound found most
    · cases stepped
  | upkeep key upkeep =>
    obtain ⟨limiter,kept,rfl⟩ := Option.map_eq_some_iff.mp stepped
    exact sound_upkeep sound upkeep kept

-- A key with a limit of one. In KV three requests share it, of which the first
-- two read before either writes; by the object the second is refused at once.
def keyed : AuthContext := { ANONYMOUS_AUTH_CONTEXT with userId := some "u".toList, tier := .Free, authMethod := .apiKey, apiKeyRateLimit := some 1 }

def overlapping : List Event :=
  [.request [] keyed,.request [] keyed,.fallback 0,.fallback 1,.get 0 none,.get 1 none,.put 0,.tick 5,.put 1,
    .request [] keyed,.fallback 2,.get 2 (some 0)]

def byObject : List Event := [.request [] keyed,.request [] keyed,.increment 1 true,.tick 7,.increment 0 true]

def Earned (s : State) (authContext : AuthContext) (now resetAt : Nat) : Prop :=
  ∃ limit, maxRequests authContext = some limit ∧ 0 < limit ∧ now ≤ resetAt ∧
    (limit ≤ allowedSince (s.limiters (kvKey [] authContext)).history (resetAt-windowMs) ∨
      limit ≤ served s.requests (kvKey [] authContext) resetAt)

-- A negative limit of a key leaves the tier's.
example : maxRequests { keyed with apiKeyRateLimit := some (-1) } = some 60 := rfl

end AdblockCompiler.TieredRateLimits
