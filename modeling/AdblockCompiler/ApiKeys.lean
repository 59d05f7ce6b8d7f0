import AdblockCompiler.Authentication
import AdblockCompiler.Schedules

-- The handlers that create and revoke API keys, called by one user any number
-- of times. Each SQL statement is one step, and any other step can come between
-- two statements of a handler.
namespace AdblockCompiler.ApiKeys
open JsText Schedules AuthContexts

inductive AuthScope where
  | Compile | Rules | Admin | Agents
  deriving DecidableEq, Repr

-- A row of api_keys; times are in milliseconds.
structure ApiKeyRow where
  id : Text
  user_id : Text
  key_hash : Text
  key_prefix : Text
  name : Text
  scopes : List AuthScope
  rate_limit_per_minute : Nat
  expires_at : Option Int
  revoked_at : Option Int
  created_at : Int
  updated_at : Int

-- A body that CreateApiKeyRequestSchema accepts.
structure CreateApiKeyRequest where
  name : Text
  scopes : List AuthScope
  expiresInDays : Option Nat
  trimmed : trim name = name
  sized : 1 ≤ name.length ∧ name.length ≤ 100
  ahead : ∀ days ∈ expiresInDays, 1 ≤ days ∧ days ≤ 365

-- What request.json() and the schema make of a request: no JSON, the messages
-- of the issues found, or a body.
inductive Body where
  | malformed
  | rejected (issues : List Text)
  | parsed (data : CreateApiKeyRequest)

structure CreatedKey where
  id : Text
  key : Text
  keyPrefix : Text
  name : Text
  scopes : List AuthScope
  rateLimitPerMinute : Nat
  expiresAt : Option Int
  createdAt : Int

inductive Response where
  | error (status : Nat) (error : Text)
  | created (key : CreatedKey)
  | success (message : Text)

def MAX_KEYS_PER_USER : Nat := 25
def API_KEY_PREFIX : Text := "abc_".toList

def requireUserId (authContext : AuthContext) : Except Response Text :=
  match authContext.userId with
  | none | some [] =>
    .error (.error 403 "User identity is not available for this session. Please sign out and sign in again.".toList)
  | some userId => .ok userId

-- What handleCreateApiKey holds when it sends its first statement.
structure Draft where
  userId : Text
  body : CreateApiKeyRequest
  expiresAt : Option Int

-- Workers run in UTC, where setDate moves by whole days.
def expiry (body : CreateApiKeyRequest) (now : Int) : Option Int :=
  body.expiresInDays.map fun days => now+days*86400000

-- handleCreateApiKey up to that statement.
def prepare (authContext : AuthContext) (body : Body) (now : Int) : Except Response Draft :=
  match requireUserId authContext with
  | .error response => .error response
  | .ok userId =>
    match body with
    | .malformed => .error (.error 400 "Invalid JSON body".toList)
    | .rejected issues => .error (.error 400 (issues.headD "Invalid request body".toList))
    | .parsed data => .ok ⟨userId,data,expiry data now⟩

-- user_id = userId AND revoked_at IS NULL
def active (userId : Text) (row : ApiKeyRow) : Bool := row.user_id = userId && row.revoked_at.isNone

def countActive (table : List ApiKeyRow) (userId : Text) : Nat := table.countP (active userId)

def limitReached : Response :=
  .error 400 ("Maximum of ".toList ++ (toString MAX_KEYS_PER_USER).toList ++ " active API keys per user".toList)

def generateApiKey (base64 : Text) : Text := API_KEY_PREFIX ++ base64

def newRow (hashKey : Text → Text) (draft : Draft) (id plaintext : Text) (now : Int) : ApiKeyRow :=
  { id := id
    user_id := draft.userId
    key_hash := hashKey plaintext
    key_prefix := plaintext.take (API_KEY_PREFIX.length+4)
    name := trim draft.body.name
    scopes := draft.body.scopes
    rate_limit_per_minute := 60
    expires_at := draft.expiresAt
    revoked_at := none
    created_at := now
    updated_at := now }

def createdKey (row : ApiKeyRow) (plaintext : Text) : CreatedKey :=
  { id := row.id
    key := plaintext
    keyPrefix := row.key_prefix
    name := row.name
    scopes := row.scopes
    rateLimitPerMinute := row.rate_limit_per_minute
    expiresAt := row.expires_at
    createdAt := row.created_at }

-- The primary key of the table, and the unique index on key_hash.
def violates (table : List ApiKeyRow) (row : ApiKeyRow) : Bool :=
  table.any fun other => other.id = row.id || other.key_hash = row.key_hash

def revocable (keyId userId : Text) (row : ApiKeyRow) : Bool := row.id = keyId && active userId row

def revokeRows (table : List ApiKeyRow) (keyId userId : Text) (now : Int) : List ApiKeyRow :=
  table.map fun row => if revocable keyId userId row then { row with revoked_at := some now, updated_at := now } else row

def revokeResponse (rowCount : Nat) : Response :=
  if rowCount = 0 then .error 404 "API key not found or already revoked".toList else .success "API key revoked".toList

-- History: how many keys the requests of the run have inserted and revoked.
structure Tally where
  inserted : Nat
  revoked : Nat

-- A call of handleCreateApiKey. seen is the history when its keys were counted.
inductive Creation where
  | counting (draft : Draft)
  | hashing (draft : Draft) (currentCount : Nat) (seen : Tally)
  | answered (response : Response)
  | threw

structure State where
  now : Int
  table : List ApiKeyRow
  creations : List Creation
  revocations : List Response
  tally : Tally

def start (table : List ApiKeyRow) (now : Int) : State := ⟨now,table,[],[],⟨0,0⟩⟩

-- gen_random_uuid and the random bytes of a key are those of the event.
inductive Event where
  | create (body : Body)
  | count (i : Nat)
  | insert (i : Nat) (id base64 : Text)
  | throws (i : Nat)
  | revoke (keyId : Text)
  | advance (ms : Nat)

def State.put (s : State) (i : Nat) (creation : Creation) : State := { s with creations := s.creations.set i creation }

def step (authContext : AuthContext) (hashKey : Text → Text) (s : State) : Event → Option State
  | .create body =>
    match prepare authContext body s.now with
    | .error response => some { s with creations := s.creations ++ [.answered response] }
    | .ok draft => some { s with creations := s.creations ++ [.counting draft] }
  | .count i =>
    match s.creations[i]? with
    | some (.counting draft) =>
      let currentCount := countActive s.table draft.userId
      if currentCount ≥ MAX_KEYS_PER_USER then some (s.put i (.answered limitReached))
      else some (s.put i (.hashing draft currentCount s.tally))
    | _ => none
  | .insert i id base64 =>
    match s.creations[i]? with
    | some (.hashing draft _ _) =>
      let plaintext := generateApiKey base64
      let row := newRow hashKey draft id plaintext s.now
      if violates s.table row then some (s.put i .threw)
      else some { s.put i (.answered (.created (createdKey row plaintext))) with
        table := s.table ++ [row]
        tally := ⟨s.tally.inserted+1,s.tally.revoked⟩ }
    | _ => none
  | .throws i =>
    match s.creations[i]? with
    | some (.counting _) | some (.hashing _ _ _) => some (s.put i .threw)
    | _ => none
  | .revoke keyId =>
    match requireUserId authContext with
    | .error response => some { s with revocations := s.revocations ++ [response] }
    | .ok userId =>
      let rowCount := s.table.countP (revocable keyId userId)
      some { s with
        table := revokeRows s.table keyId userId s.now
        revocations := s.revocations ++ [revokeResponse rowCount]
        tally := ⟨s.tally.inserted,s.tally.revoked+rowCount⟩ }
  | .advance ms => some { s with now := s.now+ms }

inductive Change (authContext : AuthContext) (hashKey : Text → Text) (s : State) : Event → State → Prop where
  | refused (unfit : prepare authContext body s.now = .error response) :
      Change authContext hashKey s (.create body) { s with creations := s.creations ++ [.answered response] }
  | drafted (fit : prepare authContext body s.now = .ok made) :
      Change authContext hashKey s (.create body) { s with creations := s.creations ++ [.counting made] }
  | limited (found : s.creations[i]? = some (.counting draft)) (full : countActive s.table draft.userId ≥ MAX_KEYS_PER_USER) :
      Change authContext hashKey s (.count i) (s.put i (.answered limitReached))
  | counted (found : s.creations[i]? = some (.counting draft)) (below : countActive s.table draft.userId < MAX_KEYS_PER_USER) :
      Change authContext hashKey s (.count i) (s.put i (.hashing draft (countActive s.table draft.userId) s.tally))
  | violated (found : s.creations[i]? = some (.hashing draft currentCount seen))
      (clash : violates s.table (newRow hashKey draft uuid (generateApiKey base64) s.now) = true) :
      Change authContext hashKey s (.insert i uuid base64) (s.put i .threw)
  | inserted (found : s.creations[i]? = some (.hashing draft currentCount seen))
      (fresh : violates s.table (newRow hashKey draft uuid (generateApiKey base64) s.now) = false) :
      Change authContext hashKey s (.insert i uuid base64) {
        s.put i (.answered (.created (createdKey (newRow hashKey draft uuid (generateApiKey base64) s.now) (generateApiKey base64)))) with
        table := s.table ++ [newRow hashKey draft uuid (generateApiKey base64) s.now]
        tally := ⟨s.tally.inserted+1,s.tally.revoked⟩ }
  | threw : Change authContext hashKey s (.throws i) (s.put i .threw)
  | denied (unknown : requireUserId authContext = .error response) :
      Change authContext hashKey s (.revoke keyId) { s with revocations := s.revocations ++ [response] }
  | revoked (known : requireUserId authContext = .ok userId) :
      Change authContext hashKey s (.revoke keyId) { s with
        table := revokeRows s.table keyId userId s.now
        revocations := s.revocations ++ [revokeResponse (s.table.countP (revocable keyId userId))]
        tally := ⟨s.tally.inserted,s.tally.revoked + s.table.countP (revocable keyId userId)⟩ }
  | advanced : Change authContext hashKey s (.advance ms) { s with now := s.now+ms }

theorem step_cases (stepped : step authContext hashKey s event = some t) : Change authContext hashKey s event t := by
  cases event with
  | create body =>
    cases fit : prepare authContext body s.now with
    | error response =>
      simp only [step,fit] at stepped
      cases stepped
      exact .refused fit
    | ok made =>
      simp only [step,fit] at stepped
      cases stepped
      exact .drafted fit
  | count i =>
    simp only [step] at stepped
    split at stepped
    · rename_i draft found
      by_cases full : countActive s.table draft.userId ≥ MAX_KEYS_PER_USER
      · rw [if_pos full] at stepped
        cases stepped
        exact .limited found full
      · rw [if_neg full] at stepped
        cases stepped
        exact .counted found (Nat.lt_of_not_ge full)
    · cases stepped
  | insert i id base64 =>
    simp only [step] at stepped
    split at stepped
    · rename_i draft currentCount seen found
      cases clash : violates s.table (newRow hashKey draft id (generateApiKey base64) s.now) with
      | true =>
        simp only [clash] at stepped
        cases stepped
        exact .violated found clash
      | false =>
        simp only [clash] at stepped
        cases stepped
        exact .inserted found clash
    · cases stepped
  | throws i =>
    simp only [step] at stepped
    split at stepped
    · cases stepped; exact .threw
    · cases stepped; exact .threw
    · cases stepped
  | revoke keyId =>
    cases known : requireUserId authContext with
    | error response =>
      simp only [step,known] at stepped
      cases stepped
      exact .denied known
    | ok userId =>
      simp only [step,known] at stepped
      cases stepped
      exact .revoked known
  | advance ms => cases stepped; exact .advanced

theorem requireUserId_known (known : requireUserId authContext = .ok userId) : authContext.userId = some userId := by
  unfold requireUserId at known
  split at known
  · cases known
  · cases known
  · cases known; assumption

theorem prepare_user (fit : prepare authContext body now = .ok made) : authContext.userId = some made.userId := by
  unfold prepare at fit
  cases known : requireUserId authContext with
  | error response => rw [known] at fit; cases fit
  | ok userId =>
    rw [known] at fit
    cases body with
    | malformed => cases fit
    | rejected issues => cases fit
    | parsed data =>
      cases fit
      exact requireUserId_known known

theorem countActive_insert (table : List ApiKeyRow) (hashKey : Text → Text) (draft : Draft) (id plaintext : Text) (now : Int) :
    countActive (table ++ [newRow hashKey draft id plaintext now]) draft.userId = countActive table draft.userId + 1 := by
  simp [countActive,List.countP_append,active,newRow]

-- The rows that an UPDATE changes are the active ones it takes away.
theorem countActive_revoke (table : List ApiKeyRow) (keyId userId : Text) (now : Int) :
    countActive (revokeRows table keyId userId now) userId + table.countP (revocable keyId userId) = countActive table userId := by
  induction table with
  | nil => rfl
  | cons row table ih =>
    simp only [countActive,revokeRows] at ih
    simp only [countActive,revokeRows,List.map_cons,List.countP_cons]
    cases changes : revocable keyId userId row with
    | false =>
      simp only [Bool.false_eq_true,if_false]
      omega
    | true =>
      have before : active userId row = true := (Bool.and_eq_true_iff.mp changes).2
      have after : active userId { row with revoked_at := some now, updated_at := now } = false := by
        simp [active]
      simp only [before,after,Bool.false_eq_true,if_true,if_false]
      omega

-- How far the table has moved from the number that a request counted.
def Accounted (authContext : AuthContext) (table : List ApiKeyRow) (tally : Tally) : Creation → Prop
  | .counting draft => authContext.userId = some draft.userId
  | .hashing draft currentCount seen =>
    authContext.userId = some draft.userId ∧ seen.inserted ≤ tally.inserted ∧ seen.revoked ≤ tally.revoked ∧
      countActive table draft.userId + (tally.revoked-seen.revoked) = currentCount + (tally.inserted-seen.inserted)
  | .answered _ | .threw => True

def Ledger (authContext : AuthContext) (s : State) : Prop :=
  ∀ creation ∈ s.creations, Accounted authContext s.table s.tally creation

theorem accounted_moved (accounted : Accounted authContext before tally creation)
    (moved : ∀ userId, authContext.userId = some userId → countActive after userId + revoked = countActive before userId + inserted) :
    Accounted authContext after ⟨tally.inserted+inserted,tally.revoked+revoked⟩ creation := by
  cases creation with
  | counting draft => exact accounted
  | hashing draft currentCount seen =>
    obtain ⟨owner,older,newer,sum⟩ := accounted
    have change := moved draft.userId owner
    refine ⟨owner,Nat.le_add_right_of_le older,Nat.le_add_right_of_le newer,?_⟩
    change countActive after draft.userId + (tally.revoked+revoked-seen.revoked) = currentCount + (tally.inserted+inserted-seen.inserted)
    omega
  | answered response => trivial
  | threw => trivial

theorem ledger_step (ledger : Ledger authContext s) (stepped : step authContext hashKey s event = some t) : Ledger authContext t := by
  cases step_cases stepped with
  | refused unfit => exact forall_append ledger trivial
  | drafted fit => exact forall_append ledger (prepare_user fit)
  | limited found full => exact forall_set ledger trivial
  | @counted i draft found below =>
    have owner : authContext.userId = some draft.userId := ledger _ (List.mem_of_getElem? found)
    have same : countActive s.table draft.userId + (s.tally.revoked-s.tally.revoked) =
        countActive s.table draft.userId + (s.tally.inserted-s.tally.inserted) := by omega
    exact forall_set ledger ⟨owner,Nat.le_refl _,Nat.le_refl _,same⟩
  | violated found clash => exact forall_set ledger trivial
  | inserted found fresh =>
    have accounted := ledger _ (List.mem_of_getElem? found)
    obtain ⟨owner,-⟩ := accounted
    refine forall_set (fun creation member => @accounted_moved authContext _ _ _ _ 0 1 (ledger creation member) ?_) trivial
    intro userId same
    obtain rfl := Option.some.inj (owner.symm.trans same)
    exact countActive_insert s.table hashKey _ _ _ s.now
  | threw => exact forall_set ledger trivial
  | denied unknown => exact ledger
  | @revoked userId keyId known =>
    refine fun creation member => @accounted_moved authContext _ _ _ _ (s.table.countP (revocable keyId userId)) 0 (ledger creation member) ?_
    intro other same
    obtain rfl : userId = other := Option.some.inj ((requireUserId_known known).symm.trans same)
    exact countActive_revoke s.table keyId userId s.now
  | advanced => exact ledger

def Within (authContext : AuthContext) (table : List ApiKeyRow) : Prop :=
  ∀ userId, authContext.userId = some userId → countActive table userId ≤ MAX_KEYS_PER_USER

-- Where a key is inserted, the number its request counted is below the limit
-- even with the keys inserted since then, and without those revoked since then.
def room (hashKey : Text → Text) (s : State) : Event → Bool
  | .insert i id base64 =>
    match s.creations[i]? with
    | some (.hashing draft currentCount seen) =>
      violates s.table (newRow hashKey draft id (generateApiKey base64) s.now) ||
        currentCount + (s.tally.inserted-seen.inserted) < MAX_KEYS_PER_USER + (s.tally.revoked-seen.revoked)
    | _ => true
  | _ => true

structure Kept (authContext : AuthContext) (s : State) : Prop where
  ledger : Ledger authContext s
  within : Within authContext s.table

theorem room_exact (kept : Kept authContext s) (stepped : step authContext hashKey s event = some t) :
    Within authContext t.table ↔ room hashKey s event = true := by
  obtain ⟨ledger,within⟩ := kept
  cases step_cases stepped with
  | refused unfit => exact iff_of_true within rfl
  | drafted fit => exact iff_of_true within rfl
  | limited found full => exact iff_of_true within rfl
  | counted found below => exact iff_of_true within rfl
  | violated found clash =>
    refine iff_of_true within ?_
    simp only [room,found,clash,Bool.true_or]
  | @inserted i draft uuid base64 currentCount seen found fresh =>
    have accounted := ledger _ (List.mem_of_getElem? found)
    obtain ⟨owner,older,newer,sum⟩ := accounted
    have fits : room hashKey s (.insert i uuid base64) = true ↔
        currentCount + (s.tally.inserted-seen.inserted) < MAX_KEYS_PER_USER + (s.tally.revoked-seen.revoked) := by
      simp only [room,found,fresh,Bool.false_or,decide_eq_true_eq]
    rw [fits]
    constructor
    · intro bounded
      have now := bounded draft.userId owner
      rw [countActive_insert] at now
      omega
    · intro below userId same
      obtain rfl := Option.some.inj (owner.symm.trans same)
      rw [countActive_insert]
      omega
  | threw => exact iff_of_true within rfl
  | denied unknown => exact iff_of_true within rfl
  | @revoked userId keyId known =>
    refine iff_of_true ?_ rfl
    intro other same
    obtain rfl := Option.some.inj ((requireUserId_known known).symm.trans same)
    have before := within userId same
    have fewer := countActive_revoke s.table keyId userId s.now
    change countActive (revokeRows s.table keyId userId s.now) userId ≤ MAX_KEYS_PER_USER
    omega
  | advanced => exact iff_of_true within rfl

theorem limit_exact (authContext : AuthContext) (hashKey : Text → Text) (table : List ApiKeyRow) (now : Int) (events : List Event)
    (within : Within authContext table) :
    Along (step authContext hashKey) (fun _ _ t => Within authContext t.table) (start table now) events ↔
      Along (step authContext hashKey) (fun s event _ => room hashKey s event = true) (start table now) events := by
  have empty : Ledger authContext (start table now) := by
    intro creation member
    cases member
  exact along_exact (Kept authContext) (fun _ _ _ kept stepped bounded => ⟨ledger_step kept.ledger stepped,bounded⟩)
    (fun _ _ _ kept stepped => room_exact kept stepped) ⟨empty,within⟩

def owner : AuthContext :=
  { ANONYMOUS_AUTH_CONTEXT with userId := some "u".toList, tier := .Free, authMethod := .betterAuth }

def plain : CreateApiKeyRequest := ⟨"k".toList,[.Compile],none,by decide,by decide,by decide⟩

-- The n keys of a user who made them one after another.
def keys (n : Nat) : List ApiKeyRow :=
  (List.range n).map fun i => newRow id ⟨"u".toList,plain,none⟩ (List.replicate i 'i') (List.replicate i 'k') 0

-- With 24 keys, a request makes the last one, and the next is refused.
def serial : List Event :=
  [.create (.parsed plain),.count 0,.insert 0 "one".toList "one".toList,.create (.parsed plain),.count 1]

-- Two requests count before either inserts.
def overlapping : List Event :=
  [.create (.parsed plain),.create (.parsed plain),.count 0,.count 1,.insert 0 "one".toList "one".toList,
    .insert 1 "two".toList "two".toList]

theorem keys_within : Within owner (keys 24) := by
  intro userId same
  obtain rfl := Option.some.inj same
  decide +kernel

theorem serial_within : Along (step owner id) (fun _ _ t => Within owner t.table) (start (keys 24) 0) serial :=
  (limit_exact owner id (keys 24) 0 serial keys_within).mpr (along_guarded.mpr (by decide +kernel))

theorem overlapping_exceeds : Within owner (keys 24) ∧
    ¬Along (step owner id) (fun _ _ t => Within owner t.table) (start (keys 24) 0) overlapping := by
  refine ⟨keys_within,?_⟩
  intro along
  have ends : ((run (step owner id) (start (keys 24) 0) overlapping).map fun s => countActive s.table "u".toList) = some 26 := by
    decide +kernel
  obtain ⟨last,ran,many⟩ := Option.map_eq_some_iff.mp ends
  have ended := along_reaches (Q := fun s => Within owner s.table) keys_within along ran
  have bound := ended "u".toList rfl
  rw [many] at bound
  exact absurd bound (by decide)

end AdblockCompiler.ApiKeys
