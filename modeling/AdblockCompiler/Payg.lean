import AdblockCompiler.Schedules
import AdblockCompiler.JsText

-- validateAndDecrementSession of the PAYG middleware: its calls share one table
-- of sessions and take their database statements in any order.
namespace AdblockCompiler.Payg
open JsText Schedules

-- A row of the table; times are those of Date.
structure PaygSession where
  id : Text
  requestsGranted : Nat
  requestsUsed : Nat
  expiresAt : Int
  revokedAt : Option Int
  deriving DecidableEq, Repr

-- sessionToken is unique in the table.
abbrev Sessions := Text → Option PaygSession

def Sessions.put (sessions : Sessions) (sessionToken : Text) (row : Option PaygSession) : Sessions :=
  fun other => if other = sessionToken then row else sessions other

inductive SessionError where
  | database_unavailable | session_not_found | session_revoked | session_expired | session_exhausted | database_error
  deriving DecidableEq, Repr

structure SessionView where
  id : Text
  requestsGranted : Nat
  requestsUsed : Nat
  expiresAt : Int
  deriving DecidableEq, Repr

structure SessionValidationResult where
  valid : Bool
  error : Option SessionError
  requestsRemaining : Option Int
  session : Option SessionView
  deriving DecidableEq, Repr

def refuse (error : SessionError) : SessionValidationResult := ⟨false,some error,none,none⟩

-- updateMany on the row of the token: the row after it, if the row matches.
def increment (now : Int) (session : PaygSession) : Option PaygSession :=
  if session.revokedAt = none ∧ session.expiresAt > now ∧ session.requestsUsed < session.requestsGranted then
    some { session with requestsUsed := session.requestsUsed+1 }
  else none

-- What the first findUnique is read for, and the second.
def reason (now : Int) : Option PaygSession → SessionError
  | none => .session_not_found
  | some session =>
    if session.revokedAt ≠ none then .session_revoked
    else if session.expiresAt ≤ now then .session_expired
    else .session_exhausted

def answer : Option PaygSession → SessionValidationResult
  | none => refuse .session_not_found
  | some updated =>
    { valid := true
      error := none
      requestsRemaining := some ((updated.requestsGranted : Int) - updated.requestsUsed)
      session := some ⟨updated.id,updated.requestsGranted,updated.requestsUsed,updated.expiresAt⟩ }

-- Where a call stands: before its update, before either read, or returned.
inductive Phase where
  | updating | refused | counted
  | returned (result : SessionValidationResult)
  deriving DecidableEq, Repr

-- increments is history: how often this call's own statement raised requestsUsed.
structure Call where
  sessionToken : Text
  now : Int
  phase : Phase
  increments : Nat
  deriving DecidableEq, Repr

-- A statement fails before or after it took effect in the database.
inductive Fault where
  | before | after
  deriving DecidableEq, Repr

def validateAndDecrementSession (sessionToken : Text) (prisma : Bool) (now : Int) : Call :=
  ⟨sessionToken,now,if prisma then .updating else .returned (refuse .database_unavailable),0⟩

-- The next statement of a call, with the catch around all of them.
def statement (sessions : Sessions) (fault : Option Fault) (call : Call) : Option (Sessions × Call) :=
  let failed : Call := { call with phase := .returned (refuse .database_error) }
  match call.phase with
  | .updating =>
    if fault = some .before then some (sessions,failed)
    else
      match (sessions call.sessionToken).bind (increment call.now) with
      | none => some (sessions,if fault = none then { call with phase := .refused } else failed)
      | some row => some (sessions.put call.sessionToken (some row),
          { call with
            increments := call.increments+1
            phase := if fault = none then .counted else .returned (refuse .database_error) })
  | .refused =>
    some (sessions,if fault = none
      then { call with phase := .returned (refuse (reason call.now (sessions call.sessionToken))) } else failed)
  | .counted =>
    some (sessions,if fault = none
      then { call with phase := .returned (answer (sessions call.sessionToken)) } else failed)
  | .returned _ => none

structure State where
  sessions : Sessions
  calls : List Call

inductive Event where
  | call (sessionToken : Text) (prisma : Bool) (now : Int)
  | statement (i : Nat) (fault : Option Fault)
  | revoke (sessionToken : Text) (revokedAt : Int)
  | delete (sessionToken : Text)

def step (s : State) : Event → Option State
  | .call sessionToken prisma now =>
    some { s with calls := s.calls ++ [validateAndDecrementSession sessionToken prisma now] }
  | .statement i fault => do
    let call ← s.calls[i]?
    let (sessions,next) ← statement s.sessions fault call
    some ⟨sessions,s.calls.set i next⟩
  | .revoke sessionToken revokedAt =>
    let row := (s.sessions sessionToken).map fun row => { row with revokedAt := some revokedAt }
    some { s with sessions := s.sessions.put sessionToken row }
  | .delete sessionToken => some { s with sessions := s.sessions.put sessionToken none }

-- Sessions as they are issued: nothing used yet, and no call made.
def Issued (s : State) : Prop :=
  s.calls = [] ∧ ∀ sessionToken row, s.sessions sessionToken = some row → row.requestsUsed = 0

def Call.valid (call : Call) : Bool :=
  match call.phase with
  | .returned result => result.valid
  | _ => false

def validCalls (s : State) (sessionToken : Text) : Nat :=
  s.calls.countP fun call => call.sessionToken = sessionToken && call.valid

-- What the calls of a token have been charged together.
def charged (s : State) (sessionToken : Text) : Nat :=
  total (fun call => if call.sessionToken = sessionToken then call.increments else 0) s.calls

@[simp] theorem put_same (sessions : Sessions) (sessionToken : Text) (row : Option PaygSession) :
    sessions.put sessionToken row sessionToken = row := if_pos rfl

theorem put_other (sessions : Sessions) (row : Option PaygSession) (other : name ≠ sessionToken) :
    sessions.put sessionToken row name = sessions name := if_neg other

theorem increment_exact : increment now session = some next ↔
    (session.revokedAt = none ∧ now < session.expiresAt ∧ session.requestsUsed < session.requestsGranted) ∧
      next = { session with requestsUsed := session.requestsUsed+1 } := by
  unfold increment
  split
  · rename_i matched
    simp only [Option.some.injEq]
    exact ⟨fun same => ⟨matched,same.symm⟩,fun parts => parts.2.symm⟩
  · rename_i unmatched
    exact ⟨fun same => (by cases same),fun parts => absurd parts.1 unmatched⟩

-- The outcomes of a statement: it fails without a charge, the update matches
-- no row or charges one, and each read gives its answer.
inductive Executed (sessions : Sessions) (fault : Option Fault) (call : Call) : Sessions → Call → Prop where
  | failed (pending : ∀ result, call.phase ≠ .returned result) (faulty : fault ≠ none)
      (uncharged : call.phase = .updating → fault = some .after →
        (sessions call.sessionToken).bind (increment call.now) = none) :
      Executed sessions fault call sessions { call with phase := .returned (refuse .database_error) }
  | refused (phase : call.phase = .updating) (works : fault = none)
      (unmatched : (sessions call.sessionToken).bind (increment call.now) = none) :
      Executed sessions fault call sessions { call with phase := .refused }
  | charged (phase : call.phase = .updating) (works : fault ≠ some .before)
      (found : sessions call.sessionToken = some row) (matched : increment call.now row = some next) :
      Executed sessions fault call (sessions.put call.sessionToken (some next))
        { call with
          increments := call.increments+1
          phase := if fault = none then .counted else .returned (refuse .database_error) }
  | explained (phase : call.phase = .refused) (works : fault = none) :
      Executed sessions fault call sessions
        { call with phase := .returned (refuse (reason call.now (sessions call.sessionToken))) }
  | answered (phase : call.phase = .counted) (works : fault = none) :
      Executed sessions fault call sessions { call with phase := .returned (answer (sessions call.sessionToken)) }

theorem statement_cases (executed : statement sessions fault call = some (after,next)) :
    Executed sessions fault call after next := by
  unfold statement at executed
  cases phase : call.phase with
  | updating =>
    simp only [phase] at executed
    split at executed
    · rename_i early
      cases executed
      refine .failed (by simp [phase]) (by simp [early]) ?_
      intro _ late
      rw [early] at late
      cases late
    · rename_i reached
      cases matched : (sessions call.sessionToken).bind (increment call.now) with
      | none =>
        simp only [matched,Option.some.injEq,Prod.mk.injEq] at executed
        obtain ⟨rfl,rfl⟩ := executed
        by_cases works : fault = none
        · rw [if_pos works]
          exact .refused phase works matched
        · rw [if_neg works]
          exact .failed (by simp [phase]) works fun _ _ => matched
      | some row =>
        simp only [matched,Option.some.injEq,Prod.mk.injEq] at executed
        obtain ⟨rfl,rfl⟩ := executed
        obtain ⟨old,found,raised⟩ := Option.bind_eq_some_iff.mp matched
        exact .charged phase reached found raised
  | refused =>
    simp only [phase,Option.some.injEq,Prod.mk.injEq] at executed
    obtain ⟨rfl,rfl⟩ := executed
    by_cases works : fault = none
    · rw [if_pos works]
      exact .explained phase works
    · rw [if_neg works]
      exact .failed (by simp [phase]) works (by simp [phase])
  | counted =>
    simp only [phase,Option.some.injEq,Prod.mk.injEq] at executed
    obtain ⟨rfl,rfl⟩ := executed
    by_cases works : fault = none
    · rw [if_pos works]
      exact .answered phase works
    · rw [if_neg works]
      exact .failed (by simp [phase]) works (by simp [phase])
  | returned result =>
    simp only [phase] at executed
    cases executed

theorem executed_token (executed : Executed sessions fault call after next) : next.sessionToken = call.sessionToken := by
  cases executed <;> rfl

theorem executed_now (executed : Executed sessions fault call after next) : next.now = call.now := by
  cases executed <;> rfl

-- A step either adds a call, touches rows alone, or runs one statement.
theorem statement_step (stepped : step s (.statement i fault) = some t) :
    ∃ call next, s.calls[i]? = some call ∧ Executed s.sessions fault call t.sessions next ∧
      t.calls = s.calls.set i next := by
  simp only [step,Option.bind_eq_bind] at stepped
  obtain ⟨call,found,rest⟩ := Option.bind_eq_some_iff.mp stepped
  obtain ⟨both,executed,made⟩ := Option.bind_eq_some_iff.mp rest
  obtain ⟨after,next⟩ := both
  cases made
  exact ⟨call,next,found,statement_cases executed,rfl⟩

-- What revoking and deleting do to the rows: one that is left was there, and
-- differs at most in being revoked.
def Ages (before after : Sessions) : Prop :=
  ∀ sessionToken row, after sessionToken = some row →
    ∃ old revokedAt, before sessionToken = some old ∧ row = { old with revokedAt := revokedAt } ∧
      (old.revokedAt ≠ none → revokedAt ≠ none)

theorem ages_put (sessions : Sessions) (token : Text) (changed : Option PaygSession)
    (aged : ∀ row, changed = some row → ∃ old revokedAt, sessions token = some old ∧ row = { old with revokedAt := revokedAt } ∧
      (old.revokedAt ≠ none → revokedAt ≠ none)) : Ages sessions (sessions.put token changed) := by
  intro sessionToken row present
  by_cases same : sessionToken = token
  · subst same
    rw [put_same] at present
    exact aged row present
  · rw [put_other sessions _ same] at present
    exact ⟨row,row.revokedAt,present,rfl,id⟩

theorem revoke_step (stepped : step s (.revoke token revokedAt) = some t) :
    t.calls = s.calls ∧ Ages s.sessions t.sessions := by
  cases stepped
  refine ⟨rfl,ages_put _ _ _ ?_⟩
  intro row revoked
  obtain ⟨old,found,rfl⟩ := Option.map_eq_some_iff.mp revoked
  exact ⟨old,some revokedAt,found,rfl,fun _ => by simp⟩

theorem delete_step (stepped : step s (.delete token) = some t) : t.calls = s.calls ∧ Ages s.sessions t.sessions := by
  cases stepped
  refine ⟨rfl,ages_put _ _ _ ?_⟩
  intro row deleted
  cases deleted

-- A valid answer is given to a call whose update went through, once.
def Call.Sound (call : Call) : Prop :=
  match call.phase with
  | .updating | .refused => call.increments = 0
  | .counted => call.increments = 1
  | .returned result => result.valid = true → call.increments = 1

theorem started_sound (sessionToken : Text) (prisma : Bool) (now : Int) :
    (validateAndDecrementSession sessionToken prisma now).Sound := by
  cases prisma with
  | true => exact rfl
  | false => exact fun valid => by cases valid

theorem executed_sound (executed : Executed sessions fault call after next) (sound : call.Sound) : next.Sound := by
  cases executed with
  | failed pending faulty uncharged => exact fun valid => by cases valid
  | refused phase works unmatched =>
    unfold Call.Sound at sound
    rw [phase] at sound
    exact sound
  | charged phase works found matched =>
    unfold Call.Sound at sound
    rw [phase] at sound
    unfold Call.Sound
    by_cases ok : fault = none
    · rw [if_pos ok]
      exact congrArg (· + 1) sound
    · rw [if_neg ok]
      exact fun valid => by cases valid
  | explained phase works => exact fun valid => by cases valid
  | answered phase works =>
    unfold Call.Sound at sound
    rw [phase] at sound
    exact fun _ => sound

def Sound (s : State) : Prop := ∀ call ∈ s.calls, call.Sound

theorem sound_step (sound : Sound s) (stepped : step s event = some t) : Sound t := by
  cases event with
  | call sessionToken prisma now =>
    cases stepped
    intro call member
    cases List.mem_append.mp member with
    | inl old => exact sound call old
    | inr new =>
      rw [List.mem_singleton.mp new]
      exact started_sound sessionToken prisma now
  | statement i fault =>
    obtain ⟨call,next,found,executed,calls⟩ := statement_step stepped
    unfold Sound
    rw [calls]
    exact forall_set sound (executed_sound executed (sound call (List.mem_of_getElem? found)))
  | revoke sessionToken revokedAt => cases stepped; exact sound
  | delete sessionToken => cases stepped; exact sound

-- Each valid call has been charged.
theorem validCalls_charged (sound : Sound s) (sessionToken : Text) : validCalls s sessionToken ≤ charged s sessionToken := by
  refine countP_total _ _ _ ?_
  intro call member counted
  simp only [Bool.and_eq_true,decide_eq_true_eq] at counted
  obtain ⟨same,valid⟩ := counted
  have once := sound call member
  unfold Call.valid at valid
  unfold Call.Sound at once
  rw [if_pos same]
  cases phase : call.phase with
  | returned result =>
    rw [phase] at valid once
    exact Nat.le_of_eq (once valid).symm
  | updating | refused | counted =>
    rw [phase] at valid
    cases valid

-- What a statement does to one token: nothing, or one increment of its row.
theorem executed_token_row (executed : Executed sessions fault call after next) (sessionToken : Text) :
    (after sessionToken = sessions sessionToken ∧ (call.sessionToken = sessionToken → next.increments = call.increments)) ∨
    (call.sessionToken = sessionToken ∧ next.increments = call.increments+1 ∧ ∃ row raised,
      sessions sessionToken = some row ∧ increment call.now row = some raised ∧ after sessionToken = some raised) := by
  cases executed with
  | failed pending faulty uncharged => exact .inl ⟨rfl,fun _ => rfl⟩
  | refused phase works unmatched => exact .inl ⟨rfl,fun _ => rfl⟩
  | @charged row raised phase works found matched =>
    by_cases same : call.sessionToken = sessionToken
    · subst same
      exact .inr ⟨rfl,rfl,row,raised,found,matched,put_same _ _ _⟩
    · exact .inl ⟨put_other sessions _ (Ne.symm same),fun equal => absurd equal same⟩
  | explained phase works => exact .inl ⟨rfl,fun _ => rfl⟩
  | answered phase works => exact .inl ⟨rfl,fun _ => rfl⟩

def Call.Granted (call : Call) : Prop := call.phase = .counted ∨ call.valid = true

-- A call is on its way to a valid answer only through an update that matched.
theorem executed_granted (executed : Executed sessions fault call after next) (granted : next.Granted) :
    call.Granted ∨ ∃ row raised, sessions call.sessionToken = some row ∧ increment call.now row = some raised := by
  cases executed with
  | failed pending faulty uncharged =>
    cases granted with
    | inl counted => cases counted
    | inr valid => cases valid
  | refused phase works unmatched =>
    cases granted with
    | inl counted => cases counted
    | inr valid => cases valid
  | @charged row raised phase works found matched => exact .inr ⟨row,raised,found,matched⟩
  | explained phase works =>
    cases granted with
    | inl counted => cases counted
    | inr valid => cases valid
  | answered phase works => exact .inl (.inl phase)

theorem started_granted (sessionToken : Text) (prisma : Bool) (now : Int) :
    ¬(validateAndDecrementSession sessionToken prisma now).Granted := by
  unfold Call.Granted Call.valid validateAndDecrementSession
  cases prisma <;> simp [refuse]

-- The account of one session: its row shows what its calls were charged, and
-- whoever is granted a request read the clock in time.
structure Metered (issued : PaygSession) (sessionToken : Text) (s : State) : Prop where
  row : ∀ row, s.sessions sessionToken = some row → row.requestsUsed = charged s sessionToken ∧
    row.requestsGranted = issued.requestsGranted ∧ row.expiresAt = issued.expiresAt
  bound : charged s sessionToken ≤ issued.requestsGranted
  clocks : ∀ call ∈ s.calls, call.sessionToken = sessionToken → call.Granted → call.now < issued.expiresAt

theorem metered_start (fresh : Issued s) (found : s.sessions sessionToken = some issued) :
    Metered issued sessionToken s := by
  obtain ⟨none,unused⟩ := fresh
  have zero : charged s sessionToken = 0 := by simp [charged,none,total]
  refine ⟨?_,?_,?_⟩
  · intro row same
    obtain rfl : issued = row := Option.some.inj (found.symm.trans same)
    exact ⟨(unused _ _ found).trans zero.symm,rfl,rfl⟩
  · rw [zero]
    exact Nat.zero_le _
  · intro call member
    rw [none] at member
    cases member

theorem charged_set (found : s.calls[i]? = some call) (calls : t.calls = s.calls.set i next)
    (same : next.sessionToken = call.sessionToken) (sessionToken : Text) :
    charged t sessionToken + (if call.sessionToken = sessionToken then call.increments else 0) =
      charged s sessionToken + (if call.sessionToken = sessionToken then next.increments else 0) := by
  have replaced := total_set (fun call : Call => if call.sessionToken = sessionToken then call.increments else 0) found next
  unfold charged
  rw [calls,replaced,same]

theorem metered_statement (metered : Metered issued sessionToken s) (stepped : step s (.statement i fault) = some t) :
    Metered issued sessionToken t := by
  obtain ⟨call,next,found,executed,calls⟩ := statement_step stepped
  have account := charged_set found calls (executed_token executed) sessionToken
  have clocks : ∀ call ∈ t.calls, call.sessionToken = sessionToken → call.Granted → call.now < issued.expiresAt := by
    rw [calls]
    refine forall_set metered.clocks ?_
    intro same granted
    rw [executed_token executed] at same
    rw [executed_now executed]
    cases executed_granted executed granted with
    | inl earlier => exact metered.clocks call (List.mem_of_getElem? found) same earlier
    | inr matched =>
      obtain ⟨row,raised,present,raise⟩ := matched
      rw [same] at present
      rw [← (metered.row row present).2.2]
      exact (increment_exact.mp raise).1.2.1
  cases executed_token_row executed sessionToken with
  | inl untouched =>
    obtain ⟨rows,increments⟩ := untouched
    have kept : charged t sessionToken = charged s sessionToken := by
      split at account
      · rename_i same
        have equal := increments same
        omega
      · exact account
    refine ⟨?_,kept ▸ metered.bound,clocks⟩
    intro row present
    rw [kept]
    exact metered.row row (rows ▸ present)
  | inr charge =>
    obtain ⟨same,more,row,raised,present,raise,after⟩ := charge
    rw [if_pos same,if_pos same,more] at account
    obtain ⟨used,granted,expires⟩ := metered.row row present
    obtain ⟨⟨-,-,room⟩,rfl⟩ := increment_exact.mp raise
    refine ⟨?_,?_,clocks⟩
    · intro other present'
      obtain rfl : _ = other := Option.some.inj (after.symm.trans present')
      exact ⟨by show row.requestsUsed+1 = _; omega,granted,expires⟩
    · omega

theorem metered_ages (metered : Metered issued sessionToken s) (calls : t.calls = s.calls)
    (ages : Ages s.sessions t.sessions) : Metered issued sessionToken t := by
  have same : charged t sessionToken = charged s sessionToken := by
    unfold charged
    rw [calls]
  refine ⟨?_,same ▸ metered.bound,calls ▸ metered.clocks⟩
  intro row present
  obtain ⟨old,revokedAt,found,rfl,-⟩ := ages sessionToken row present
  rw [same]
  exact metered.row old found

theorem metered_step (metered : Metered issued sessionToken s) (stepped : step s event = some t) :
    Metered issued sessionToken t := by
  cases event with
  | call token prisma now =>
    cases stepped
    have unchanged : charged ⟨s.sessions,s.calls ++ [validateAndDecrementSession token prisma now]⟩ sessionToken =
        charged s sessionToken := by
      unfold charged
      rw [total_append]
      simp [total,validateAndDecrementSession]
    refine ⟨?_,unchanged ▸ metered.bound,?_⟩
    · intro row present
      rw [unchanged]
      exact metered.row row present
    · intro call member
      cases List.mem_append.mp member with
      | inl old => exact metered.clocks call old
      | inr new =>
        rw [List.mem_singleton.mp new]
        exact fun _ granted => absurd granted (started_granted token prisma now)
  | statement i fault => exact metered_statement metered stepped
  | revoke token revokedAt =>
    obtain ⟨calls,ages⟩ := revoke_step stepped
    exact metered_ages metered calls ages
  | delete token =>
    obtain ⟨calls,ages⟩ := delete_step stepped
    exact metered_ages metered calls ages

-- A call that has not run its update.
def Unstarted (s : State) (i : Nat) : Prop := ∀ call, s.calls[i]? = some call → call.phase = .updating

-- After a revocation the row is never live again, and such a call is on no way
-- to a valid answer.
structure Barred (sessionToken : Text) (i : Nat) (s : State) : Prop where
  row : ∀ row, s.sessions sessionToken = some row → row.revokedAt ≠ none
  call : ∀ call, s.calls[i]? = some call → call.sessionToken = sessionToken → ¬call.Granted

theorem barred_ages (barred : Barred sessionToken i s) (calls : t.calls = s.calls) (ages : Ages s.sessions t.sessions) :
    Barred sessionToken i t := by
  refine ⟨?_,calls ▸ barred.call⟩
  intro row present
  obtain ⟨old,revokedAt,found,rfl,stays⟩ := ages sessionToken row present
  exact stays (barred.row old found)

theorem barred_step (barred : Barred sessionToken i s) (stepped : step s event = some t) : Barred sessionToken i t := by
  cases event with
  | call token prisma now =>
    cases stepped
    refine ⟨barred.row,?_⟩
    intro call found
    rcases found_append found with old | ⟨-,rfl⟩
    · exact barred.call call old
    · exact fun _ => started_granted token prisma now
  | statement j fault =>
    obtain ⟨call,next,found,executed,calls⟩ := statement_step stepped
    have stays : ∀ row, s.sessions sessionToken = some row → ∀ now, increment now row = none := by
      intro row present now
      unfold increment
      exact if_neg fun matched => barred.row row present matched.1
    refine ⟨?_,?_⟩
    · intro row present
      cases executed_token_row executed sessionToken with
      | inl untouched => exact barred.row row (untouched.1 ▸ present)
      | inr charge =>
        obtain ⟨-,-,old,raised,before,raise,-⟩ := charge
        rw [stays old before] at raise
        cases raise
    · intro other located same granted
      rw [calls] at located
      rcases found_set located with ⟨rfl,rfl⟩ | ⟨-,elsewhere⟩
      · rw [executed_token executed] at same
        cases executed_granted executed granted with
        | inl earlier => exact barred.call call found same earlier
        | inr matched =>
          obtain ⟨row,raised,present,raise⟩ := matched
          rw [same] at present
          rw [stays row present] at raise
          cases raise
      · exact barred.call other elsewhere same granted
  | revoke token revokedAt =>
    obtain ⟨calls,ages⟩ := revoke_step stepped
    exact barred_ages barred calls ages
  | delete token =>
    obtain ⟨calls,ages⟩ := delete_step stepped
    exact barred_ages barred calls ages

-- However the calls of a session are interleaved, and whichever statements
-- fail, it grants no more than was paid for, none of it after it expired, and
-- none to a call whose update runs after the revocation.
theorem sessions_never_over_grant (fresh : Issued start) (issued : start.sessions sessionToken = some session)
    (ran : run step start earlier = some middle) (went : run step middle later = some final) :
    validCalls final sessionToken ≤ session.requestsGranted ∧
    (∀ row, final.sessions sessionToken = some row → row.requestsUsed ≤ row.requestsGranted) ∧
    (∀ call ∈ final.calls, call.sessionToken = sessionToken → session.expiresAt ≤ call.now → call.valid = false) ∧
    (∀ row, middle.sessions sessionToken = some row → row.revokedAt ≠ none → ∀ i, Unstarted middle i →
      ∀ call, final.calls[i]? = some call → call.sessionToken = sessionToken → call.valid = false) := by
  have whole : run step start (earlier ++ later) = some final := run_append.mpr ⟨middle,ran,went⟩
  have none : Sound start := by
    intro call member
    rw [fresh.1] at member
    cases member
  have sound : Sound final := run_keeps Sound (fun _ _ _ => sound_step) none whole
  have metered : Metered session sessionToken final :=
    run_keeps _ (fun _ _ _ => metered_step) (metered_start fresh issued) whole
  refine ⟨Nat.le_trans (validCalls_charged sound sessionToken) metered.bound,?_,?_,?_⟩
  · intro row present
    obtain ⟨used,granted,-⟩ := metered.row row present
    rw [used,granted]
    exact metered.bound
  · intro call member same late
    rw [Bool.eq_false_iff]
    intro valid
    have early := metered.clocks call member same (.inr valid)
    omega
  · intro row present revoked i unstarted call found same
    have barred : Barred sessionToken i middle := by
      refine ⟨?_,?_⟩
      · intro other found'
        obtain rfl : row = other := Option.some.inj (present.symm.trans found')
        exact revoked
      · intro call located _ granted
        have updating := unstarted call located
        cases granted with
        | inl counted => rw [updating] at counted; cases counted
        | inr valid => simp [Call.valid,updating] at valid
    have stays : Barred sessionToken i final := run_keeps _ (fun _ _ _ => barred_step) barred went
    rw [Bool.eq_false_iff]
    exact fun valid => stays.call call found same (.inr valid)

-- Two calls race for the one request of a session, which is then revoked.
def oneSession : PaygSession := ⟨"id".toList,1,0,100,none⟩

def oneRequest : State := ⟨fun sessionToken => if sessionToken = "s".toList then some oneSession else none,[]⟩

theorem oneRequest_issued : Issued oneRequest := by
  refine ⟨rfl,?_⟩
  intro sessionToken row present
  simp only [oneRequest,Option.ite_none_right_eq_some,Option.some.injEq] at present
  obtain ⟨-,rfl⟩ := present
  rfl

def racing : List Event :=
  [.call "s".toList true 10,.call "s".toList true 20,.statement 1 none,.revoke "s".toList 30]

def finishing : List Event := [.statement 0 none,.statement 1 none,.statement 0 none]

theorem oneRequest_granted_once : ∃ middle final,
    run step oneRequest racing = some middle ∧ run step middle finishing = some final ∧
    validCalls final "s".toList ≤ oneSession.requestsGranted ∧
    (∀ row, final.sessions "s".toList = some row → row.requestsUsed ≤ row.requestsGranted) ∧
    (∀ call ∈ final.calls, call.sessionToken = "s".toList → oneSession.expiresAt ≤ call.now → call.valid = false) ∧
    (∀ row, middle.sessions "s".toList = some row → row.revokedAt ≠ none → ∀ i, Unstarted middle i →
      ∀ call, final.calls[i]? = some call → call.sessionToken = "s".toList → call.valid = false) := by
  obtain ⟨final,whole⟩ : ∃ final, run step oneRequest (racing ++ finishing) = some final := ⟨_,rfl⟩
  obtain ⟨middle,ran,went⟩ := run_append.mp whole
  exact ⟨middle,final,ran,went,sessions_never_over_grant oneRequest_issued rfl ran went⟩

-- Exact charging: a call that returned has raised requestsUsed once if it is
-- valid and not at all otherwise, and nothing else raises it.
def Call.Exact (call : Call) : Prop :=
  match call.phase with
  | .returned result => call.increments = if result.valid then 1 else 0
  | _ => True

def ExactlyCharged (s : State) : Prop :=
  (∀ call ∈ s.calls, call.Exact) ∧
    ∀ sessionToken row, s.sessions sessionToken = some row → row.requestsUsed = charged s sessionToken

-- The update answers whenever it has charged, and the read after it finds the
-- row.
def answers (sessions : Sessions) (fault : Option Fault) (call : Call) : Bool :=
  match call.phase with
  | .updating => fault ≠ some .after || ((sessions call.sessionToken).bind (increment call.now)).isNone
  | .counted => fault.isNone && (sessions call.sessionToken).isSome
  | _ => true

def answered (s : State) : Event → Bool
  | .statement i fault => s.calls[i]?.all (answers s.sessions fault)
  | _ => true

-- The charge that fits where a call stands.
def Call.Tight (call : Call) : Prop :=
  match call.phase with
  | .updating | .refused => call.increments = 0
  | .counted => call.increments = 1
  | .returned result => call.increments = if result.valid then 1 else 0

theorem tight_exact {call : Call} (tight : call.Tight) : call.Exact := by
  unfold Call.Tight at tight
  unfold Call.Exact
  cases phase : call.phase with
  | returned result => rw [phase] at tight; exact tight
  | updating | refused | counted => trivial

def Call.Spoiled (call : Call) : Prop := ∃ result, call.phase = .returned result ∧ ¬call.Exact

-- From a fitting charge a statement that answers leads to one; any other ends
-- its call with a charge that does not fit.
theorem executed_tight (executed : Executed sessions fault call after next) (tight : call.Tight) :
    (answers sessions fault call = true → next.Tight) ∧ (answers sessions fault call = false → next.Spoiled) := by
  unfold Call.Tight at tight
  unfold answers
  cases executed with
  | failed pending faulty uncharged =>
    cases phase : call.phase with
    | updating =>
      rw [phase] at tight
      refine ⟨fun _ => tight,?_⟩
      intro lost
      simp only [Bool.or_eq_false_iff,decide_eq_false_iff_not,ne_eq,Decidable.not_not] at lost
      rw [uncharged phase lost.1] at lost
      cases lost.2
    | refused =>
      rw [phase] at tight
      exact ⟨fun _ => tight,fun lost => by cases lost⟩
    | counted =>
      rw [phase] at tight
      refine ⟨?_,fun _ => ⟨_,rfl,?_⟩⟩
      · intro works
        simp only [Bool.and_eq_true,Option.isNone_iff_eq_none] at works
        exact absurd works.1 faulty
      · intro exact
        have none : call.increments = 0 := exact
        omega
    | returned result => exact absurd phase (pending result)
  | refused phase works unmatched =>
    rw [phase] at tight
    simp only [phase,unmatched,Option.isNone_none,Bool.or_true]
    exact ⟨fun _ => tight,fun lost => by cases lost⟩
  | @charged row raised phase works found matched =>
    rw [phase] at tight
    have charges : (sessions call.sessionToken).bind (increment call.now) = some raised := by
      rw [found]
      exact matched
    simp only [phase,charges,Option.isNone_some,Bool.or_false,decide_eq_true_eq,decide_eq_false_iff_not]
    have once : call.increments+1 = 1 := congrArg (· + 1) tight
    refine ⟨?_,?_⟩
    · intro kept
      obtain rfl : fault = none := by
        cases fault with
        | none => rfl
        | some kind => cases kind with
          | before => exact absurd rfl works
          | after => exact absurd rfl kept
      exact once
    · intro lost
      obtain rfl : fault = some .after := Decidable.not_not.mp lost
      refine ⟨_,rfl,?_⟩
      intro exact
      have none : call.increments+1 = 0 := exact
      omega
  | explained phase works =>
    rw [phase] at tight
    simp only [phase]
    exact ⟨fun _ => tight,fun lost => by cases lost⟩
  | answered phase works =>
    rw [phase] at tight
    simp only [phase,works,Option.isNone_none,Bool.true_and]
    cases sessions call.sessionToken with
    | none =>
      refine ⟨fun found => (by cases found),fun _ => ⟨_,rfl,?_⟩⟩
      intro exact
      have none : call.increments = 0 := exact
      omega
    | some row => exact ⟨fun _ => tight,fun lost => by cases lost⟩

def Tight (s : State) : Prop := ∀ call ∈ s.calls, call.Tight

-- A returned call stays as it is.
theorem executed_pending (executed : Executed sessions fault call after next) (result : SessionValidationResult) :
    call.phase ≠ .returned result := by
  cases executed with
  | failed pending faulty uncharged => exact pending result
  | refused phase works unmatched => simp [phase]
  | charged phase works found matched => simp [phase]
  | explained phase works => simp [phase]
  | answered phase works => simp [phase]

def Spoiled (s : State) : Prop := ∃ call ∈ s.calls, call.Spoiled

theorem tight_step (tight : Tight s) (stepped : step s event = some t) :
    (answered s event = true → Tight t) ∧ (answered s event = false → Spoiled t) := by
  cases event with
  | call token prisma now =>
    cases stepped
    refine ⟨fun _ => ?_,fun lost => by cases lost⟩
    intro call member
    cases List.mem_append.mp member with
    | inl old => exact tight call old
    | inr new =>
      rw [List.mem_singleton.mp new]
      cases prisma <;> exact rfl
  | statement i fault =>
    obtain ⟨call,next,found,executed,calls⟩ := statement_step stepped
    obtain ⟨kept,lost⟩ := executed_tight executed (tight call (List.mem_of_getElem? found))
    have asked : answered s (.statement i fault) = answers s.sessions fault call := by
      simp only [answered,found,Option.all_some]
    rw [asked]
    unfold Tight Spoiled
    rw [calls]
    refine ⟨fun works => forall_set tight (kept works),?_⟩
    intro fails
    have inside : i < s.calls.length := (List.getElem?_eq_some_iff.mp found).1
    exact ⟨next,List.mem_set inside next,lost fails⟩
  | revoke token revokedAt =>
    cases stepped
    exact ⟨fun _ => tight,fun lost => by cases lost⟩
  | delete token =>
    cases stepped
    exact ⟨fun _ => tight,fun lost => by cases lost⟩

theorem spoiled_step (spoiled : Spoiled s) (stepped : step s event = some t) : Spoiled t := by
  obtain ⟨call,member,result,phase,inexact⟩ := spoiled
  cases event with
  | call token prisma now =>
    cases stepped
    exact ⟨call,List.mem_append_left _ member,result,phase,inexact⟩
  | statement i fault =>
    obtain ⟨other,next,found,executed,calls⟩ := statement_step stepped
    obtain ⟨j,located⟩ := List.getElem?_of_mem member
    have elsewhere : i ≠ j := by
      intro same
      subst same
      obtain rfl : other = call := Option.some.inj (found.symm.trans located)
      exact executed_pending executed result phase
    refine ⟨call,?_,result,phase,inexact⟩
    rw [calls]
    exact List.mem_of_getElem? ((List.getElem?_set_ne elsewhere).trans located)
  | revoke token revokedAt =>
    cases stepped
    exact ⟨call,member,result,phase,inexact⟩
  | delete token =>
    cases stepped
    exact ⟨call,member,result,phase,inexact⟩

-- What a row shows as used is what its calls were charged.
def Accounted (s : State) : Prop :=
  ∀ sessionToken row, s.sessions sessionToken = some row → row.requestsUsed = charged s sessionToken

theorem absent_step (absent : s.sessions sessionToken = none) (stepped : step s event = some t) :
    t.sessions sessionToken = none := by
  have aged : Ages s.sessions t.sessions → t.sessions sessionToken = none := by
    intro ages
    rw [Option.eq_none_iff_forall_ne_some]
    intro row present
    obtain ⟨old,-,found,-⟩ := ages sessionToken row present
    rw [absent] at found
    cases found
  cases event with
  | call token prisma now => cases stepped; exact absent
  | statement i fault =>
    obtain ⟨call,next,-,executed,-⟩ := statement_step stepped
    cases executed_token_row executed sessionToken with
    | inl untouched => exact untouched.1.trans absent
    | inr charge =>
      obtain ⟨-,-,row,raised,present,-⟩ := charge
      rw [absent] at present
      cases present
  | revoke token revokedAt => exact aged (revoke_step stepped).2
  | delete token => exact aged (delete_step stepped).2

theorem accounted_run (fresh : Issued start) (ran : run step start events = some final) : Accounted final := by
  intro sessionToken row present
  cases issued : start.sessions sessionToken with
  | none =>
    have kept : ∀ s event t, s.sessions sessionToken = none → step s event = some t → t.sessions sessionToken = none :=
      fun _ _ _ => absent_step
    have absent : final.sessions sessionToken = none := run_keeps (fun s => s.sessions sessionToken = none) kept issued ran
    rw [absent] at present
    cases present
  | some session =>
    have metered : Metered session sessionToken final :=
      run_keeps _ (fun _ _ _ => metered_step) (metered_start fresh issued) ran
    exact (metered.row row present).1

-- As long as the statements answer the charges fit; the first that does not
-- leaves a returned call behind that is charged wrongly for good.
theorem tight_run (tight : Tight start) (ran : run step start events = some final) :
    (run (guarded answered step) start events = some final ∧ Tight final) ∨ Spoiled final := by
  induction events generalizing start with
  | nil =>
    cases ran
    exact .inl ⟨rfl,tight⟩
  | cons event rest ih =>
    obtain ⟨next,stepped,after⟩ := run_cons.mp ran
    obtain ⟨kept,lost⟩ := tight_step tight stepped
    cases works : answered start event with
    | true =>
      cases ih (kept works) after with
      | inl exact => exact .inl ⟨run_cons.mpr ⟨next,guarded_step.mpr ⟨works,stepped⟩,exact.1⟩,exact.2⟩
      | inr spoiled => exact .inr spoiled
    | false => exact .inr (run_keeps Spoiled (fun _ _ _ => spoiled_step) (lost works) after)

-- Charging is exact in just those runs in which every update that charged
-- answers and every read behind one finds its row.
theorem charging_exact (fresh : Issued start) (ran : run step start events = some final) :
    ExactlyCharged final ↔ run (guarded answered step) start events = some final := by
  have none : Tight start := by
    intro call member
    rw [fresh.1] at member
    cases member
  constructor
  · intro exact
    cases tight_run none ran with
    | inl answers => exact answers.1
    | inr spoiled =>
      obtain ⟨call,member,result,-,inexact⟩ := spoiled
      exact absurd (exact.1 call member) inexact
  · intro answers
    refine ⟨?_,accounted_run fresh ran⟩
    have tight : Tight final := by
      refine run_keeps Tight ?_ none answers
      intro s event t tight stepped
      obtain ⟨works,plain⟩ := guarded_step.mp stepped
      exact (tight_step tight plain).1 works
    exact fun call member => tight_exact (tight call member)

theorem oneRequest_exact : ∃ final, run step oneRequest (racing ++ finishing) = some final ∧
    (ExactlyCharged final ↔ run (guarded answered step) oneRequest (racing ++ finishing) = some final) := by
  obtain ⟨final,ran⟩ : ∃ final, run step oneRequest (racing ++ finishing) = some final := ⟨_,rfl⟩
  exact ⟨final,ran,charging_exact oneRequest_issued ran⟩

-- The read behind a charged update fails: the call is refused, and charged.
theorem failed_read_charged : ¬∀ start events final, Issued start → run step start events = some final →
    ExactlyCharged final := by
  intro always
  have exact := always oneRequest [.call "s".toList true 10,.statement 0 none,.statement 0 (some .before)] _
    oneRequest_issued rfl
  have charge := exact.1 _ List.mem_cons_self
  cases charge

end AdblockCompiler.Payg
