import AdblockCompiler.AdminRoles
import AdblockCompiler.Schedules

-- Calls of resolveAdminContext, and of the handlers that revoke and assign
-- roles, under way at once. Each D1 statement and each KV operation is one step.
-- A handler's guard is one more call of resolveAdminContext, for its actor.
namespace AdblockCompiler.Revocation
open JsText Schedules KeyedRows AdminRoles

-- History: a DELETE that found its row, and how many roles had been assigned.
structure Deletion where
  userId : Text
  roleName : AdminRoleName
  assigned : Nat
  deriving DecidableEq

-- seen is history: the deletions before the read from D1.
inductive Resolving where
  | asking
  | reading
  | writing (context : ResolvedAdminContext) (seen : List Deletion)
  | returned (context : Option ResolvedAdminContext)

-- after is history: the revocations that had returned success at the start.
structure Resolver where
  userId : Text
  after : List Deletion
  phase : Resolving

inductive Revoking where
  | deleting
  | clearing (deletion : Deletion)
  | auditing (deletion : Deletion)
  | returned
  | notFound

structure Revoker where
  userId : Text
  roleName : AdminRoleName
  phase : Revoking

inductive Assigning where
  | inserting
  | clearing
  | returned
  | threw

structure Assigner where
  data : AssignRoleRequest
  assignedBy : Text
  phase : Assigning

-- History: the deletions made, those whose handler has cleared the cache too,
-- and those whose handler has returned; and the assignments made.
structure State where
  tables : Tables
  kv : Option Kv
  now : Int
  resolvers : List Resolver
  revokers : List Revoker
  assigners : List Assigner
  deletions : List Deletion
  clearings : List Deletion
  successes : List Deletion
  assigned : List (Text × AdminRoleName)

def start (tables : Tables) (kv : Option Kv) (now : Int) : State := ⟨tables,kv,now,[],[],[],[],[],[],[]⟩

inductive Event where
  | resolve (userId : Text)
  | get (i : Nat)
  | read (i : Nat)
  | put (i : Nat)
  | revoke (userId : Text) (roleName : AdminRoleName)
  | delete (k : Nat)
  | clear (k : Nat)
  | audit (k : Nat)
  | assign (data : AssignRoleRequest) (assignedBy : Text)
  | insert (k : Nat)
  | invalidate (k : Nat)
  | advance (ms : Nat)

def State.resolver (s : State) (i : Nat) (resolver : Resolver) (phase : Resolving) : State :=
  { s with resolvers := s.resolvers.set i { resolver with phase := phase } }

def State.revoker (s : State) (k : Nat) (revoker : Revoker) (phase : Revoking) : State :=
  { s with revokers := s.revokers.set k { revoker with phase := phase } }

def State.assigner (s : State) (k : Nat) (assigner : Assigner) (phase : Assigning) : State :=
  { s with assigners := s.assigners.set k { assigner with phase := phase } }

-- resolveAdminContext, one operation at a time.
def checkCache (s : State) (i : Nat) (resolver : Resolver) : Option State :=
  match resolver.phase with
  | .asking =>
    match kvGet s.kv s.now (cacheKey resolver.userId) with
    | some context => some (s.resolver i resolver (.returned (some context)))
    | none => some (s.resolver i resolver .reading)
  | _ => none

def readTables (s : State) (i : Nat) (resolver : Resolver) : Option State :=
  match resolver.phase with
  | .reading =>
    match lookupContext s.tables resolver.userId s.now with
    | some context => some (s.resolver i resolver (.writing context s.deletions))
    | none => some (s.resolver i resolver (.returned none))
  | _ => none

def writeCache (s : State) (i : Nat) (resolver : Resolver) : Option State :=
  match resolver.phase with
  | .writing context _ => some { s.resolver i resolver (.returned (some context)) with
      kv := kvPut s.kv s.now (cacheKey resolver.userId) context }
  | _ => none

-- handleAdminRevokeRole: revokeRole, invalidateRoleCache, and the audit log
-- before it returns.
def deleteRow (s : State) (k : Nat) (revoker : Revoker) : Option State :=
  match revoker.phase with
  | .deleting =>
    match revokeRole s.tables revoker.userId revoker.roleName with
    | (tables,true) =>
      let deletion : Deletion := ⟨revoker.userId,revoker.roleName,s.assigned.length⟩
      some { s.revoker k revoker (.clearing deletion) with tables := tables, deletions := s.deletions ++ [deletion] }
    | (tables,false) => some { s.revoker k revoker .notFound with tables := tables }
  | _ => none

def clearCache (s : State) (k : Nat) (revoker : Revoker) : Option State :=
  match revoker.phase with
  | .clearing deletion => some { s.revoker k revoker (.auditing deletion) with
      kv := invalidateRoleCache s.kv revoker.userId
      clearings := s.clearings ++ [deletion] }
  | _ => none

def audit (s : State) (k : Nat) (revoker : Revoker) : Option State :=
  match revoker.phase with
  | .auditing deletion => some { s.revoker k revoker .returned with successes := s.successes ++ [deletion] }
  | _ => none

-- handleAdminAssignRole: assignRole and invalidateRoleCache.
def insertRow (s : State) (k : Nat) (assigner : Assigner) : Option State :=
  match assigner.phase with
  | .inserting =>
    match assignRole s.tables assigner.data assigner.assignedBy s.now with
    | (tables,.returned _) => some { s.assigner k assigner .clearing with
        tables := tables
        assigned := s.assigned ++ [(assigner.data.user_id,assigner.data.role_name)] }
    | (tables,.threw) => some { s.assigner k assigner .threw with tables := tables }
  | _ => none

def invalidate (s : State) (k : Nat) (assigner : Assigner) : Option State :=
  match assigner.phase with
  | .clearing => some { s.assigner k assigner .returned with kv := invalidateRoleCache s.kv assigner.data.user_id }
  | _ => none

def step (s : State) : Event → Option State
  | .resolve userId => some { s with resolvers := s.resolvers ++ [⟨userId,s.successes,.asking⟩] }
  | .get i => s.resolvers[i]?.bind (checkCache s i)
  | .read i => s.resolvers[i]?.bind (readTables s i)
  | .put i => s.resolvers[i]?.bind (writeCache s i)
  | .revoke userId roleName => some { s with revokers := s.revokers ++ [⟨userId,roleName,.deleting⟩] }
  | .delete k => s.revokers[k]?.bind (deleteRow s k)
  | .clear k => s.revokers[k]?.bind (clearCache s k)
  | .audit k => s.revokers[k]?.bind (audit s k)
  | .assign data assignedBy => some { s with assigners := s.assigners ++ [⟨data,assignedBy,.inserting⟩] }
  | .insert k => s.assigners[k]?.bind (insertRow s k)
  | .invalidate k => s.assigners[k]?.bind (invalidate s k)
  | .advance ms => some { s with now := s.now+ms }

-- The role was assigned to the user again, after the deletion.
def Again (assigned : List (Text × AdminRoleName)) (deletion : Deletion) : Prop :=
  (deletion.userId,deletion.roleName) ∈ assigned.drop deletion.assigned

instance : Decidable (Again assigned deletion) := inferInstanceAs (Decidable (_ ∈ _))

-- Each deletion that took the role of a context from the user was followed by
-- another assignment.
def Covers (assigned : List (Text × AdminRoleName)) (deletions : List Deletion) (userId : Text) (context : ResolvedAdminContext) : Prop :=
  ∀ deletion ∈ deletions, deletion.userId = userId → deletion.roleName = context.role_name → Again assigned deletion

-- A call that started after a revocation had returned yields the role revoked
-- only if it was assigned again.
def Final (s : State) : Prop :=
  ∀ resolver ∈ s.resolvers, ∀ context, resolver.phase = .returned (some context) →
    Covers s.assigned resolver.after resolver.userId context

-- No call caches a role that it read before a deletion, once the handler of that
-- deletion has cleared the cache.
def Resolver.timely (clearings : List Deletion) (assigned : List (Text × AdminRoleName)) (resolver : Resolver) : Bool :=
  match resolver.phase with
  | .writing context seen => clearings.all fun deletion =>
    deletion.userId ≠ resolver.userId || deletion.roleName ≠ context.role_name || deletion ∈ seen || Again assigned deletion
  | _ => true

def timely (s : State) : Event → Bool
  | .put i => s.resolvers[i]?.all (·.timely s.clearings s.assigned)
  | _ => true

def Revoker.Fits (deletions clearings : List Deletion) (revoker : Revoker) : Prop :=
  match revoker.phase with
  | .clearing deletion => deletion ∈ deletions ∧ deletion.userId = revoker.userId
  | .auditing deletion => deletion ∈ clearings
  | _ => True

def Resolver.Fits (clearings : List Deletion) (assigned : List (Text × AdminRoleName)) (resolver : Resolver) : Prop :=
  (∀ deletion ∈ resolver.after, deletion ∈ clearings) ∧
  match resolver.phase with
  | .writing context seen => (∀ deletion ∈ resolver.after, deletion ∈ seen) ∧ Covers assigned seen resolver.userId context
  | .returned (some context) => Covers assigned resolver.after resolver.userId context
  | _ => True

structure Sound (s : State) : Prop where
  placed : ∀ deletion ∈ s.deletions, deletion.assigned ≤ s.assigned.length
  cleared : ∀ deletion ∈ s.clearings, deletion ∈ s.deletions
  finished : ∀ deletion ∈ s.successes, deletion ∈ s.clearings
  revokers : ∀ revoker ∈ s.revokers, revoker.Fits s.deletions s.clearings
  resolvers : ∀ resolver ∈ s.resolvers, resolver.Fits s.clearings s.assigned
  table : ∀ deletion ∈ s.deletions, ∀ expires_at,
    held s.tables deletion.userId = some (deletion.roleName,expires_at) → Again s.assigned deletion
  cache : ∀ deletion ∈ s.clearings, ∀ entry, stored s.kv (cacheKey deletion.userId) = some entry →
    deletion.roleName = entry.context.role_name → Again s.assigned deletion

theorem again_more (again : Again assigned deletion) (more : List (Text × AdminRoleName)) : Again (assigned ++ more) deletion := by
  unfold Again
  rw [List.drop_append]
  exact List.mem_append_left _ again

-- Calls keep their place while the history grows.
theorem resolver_more {resolver : Resolver} (fits : resolver.Fits clearings assigned)
    (cleared : ∀ deletion ∈ clearings, deletion ∈ clearings') (again : ∀ deletion, Again assigned deletion → Again assigned' deletion) :
    resolver.Fits clearings' assigned' := by
  obtain ⟨after,phase⟩ := fits
  refine ⟨fun deletion member => cleared deletion (after deletion member),?_⟩
  split
  · rename_i context seen same
    rw [same] at phase
    exact ⟨phase.1,fun deletion member owner role => again deletion (phase.2 deletion member owner role)⟩
  · rename_i context same
    rw [same] at phase
    exact fun deletion member owner role => again deletion (phase deletion member owner role)
  · trivial

theorem revoker_more {revoker : Revoker} (fits : revoker.Fits deletions clearings)
    (deleted : ∀ deletion ∈ deletions, deletion ∈ deletions') (cleared : ∀ deletion ∈ clearings, deletion ∈ clearings') :
    revoker.Fits deletions' clearings' := by
  unfold Revoker.Fits at fits ⊢
  split
  · rename_i deletion same
    rw [same] at fits
    exact ⟨deleted deletion fits.1,fits.2⟩
  · rename_i deletion same
    rw [same] at fits
    exact cleared deletion fits
  · trivial

theorem resolver_sound (sound : Sound s) {phase : Resolving}
    (fits : Resolver.Fits s.clearings s.assigned { resolver with phase := phase }) : Sound (s.resolver i resolver phase) :=
  { sound with resolvers := forall_set sound.resolvers fits }

theorem checkCache_sound (sound : Sound s) (found : s.resolvers[i]? = some resolver) (stepped : checkCache s i resolver = some t) :
    Sound t := by
  obtain ⟨after,-⟩ := sound.resolvers resolver (List.mem_of_getElem? found)
  unfold checkCache at stepped
  split at stepped
  · split at stepped
    · rename_i context got
      cases stepped
      obtain ⟨entry,there,-,rfl⟩ := kvGet_exact.mp got
      refine resolver_sound sound ⟨after,?_⟩
      intro deletion member owner role
      rw [← owner] at there
      exact sound.cache deletion (after deletion member) entry there role
    · cases stepped
      exact resolver_sound sound ⟨after,trivial⟩
  · cases stepped

theorem readTables_sound (sound : Sound s) (found : s.resolvers[i]? = some resolver) (stepped : readTables s i resolver = some t) :
    Sound t := by
  obtain ⟨after,-⟩ := sound.resolvers resolver (List.mem_of_getElem? found)
  unfold readTables at stepped
  split at stepped
  · split at stepped
    · rename_i context got
      cases stepped
      rw [lookup_granted] at got
      obtain ⟨-,assigned⟩ := granted_held got
      refine resolver_sound sound ⟨after,fun deletion member => sound.cleared deletion (after deletion member),?_⟩
      intro deletion member owner role
      refine sound.table deletion member context.expires_at ?_
      rw [owner,role]
      exact assigned
    · cases stepped
      exact resolver_sound sound ⟨after,trivial⟩
  · cases stepped

theorem writeCache_sound (sound : Sound s) (found : s.resolvers[i]? = some resolver)
    (timely : resolver.timely s.clearings s.assigned = true) (stepped : writeCache s i resolver = some t) : Sound t := by
  have fits := sound.resolvers resolver (List.mem_of_getElem? found)
  unfold writeCache at stepped
  unfold Resolver.Fits at fits
  unfold Resolver.timely at timely
  split at stepped
  · rename_i context seen same
    cases stepped
    rw [same] at fits timely
    obtain ⟨after,before,covers⟩ := fits
    have returned : Sound (s.resolver i resolver (.returned (some context))) :=
      resolver_sound sound ⟨after,fun deletion member => covers deletion (before deletion member)⟩
    refine { returned with cache := ?_ }
    intro deletion member entry there role
    rcases stored_put there with ⟨key,rfl⟩ | ⟨-,old⟩
    · have owner := cacheKey_injective.mp key
      have checked := List.all_eq_true.mp timely deletion member
      simp only [owner,role,ne_eq,not_true_eq_false,decide_false,Bool.false_or,Bool.or_eq_true,decide_eq_true_eq] at checked
      rcases checked with read | again
      · exact covers deletion read owner role
      · exact again
    · exact sound.cache deletion member entry old role
  · cases stepped

theorem deleteRow_sound (sound : Sound s) (stepped : deleteRow s k revoker = some t) : Sound t := by
  have now := held_revoke s.tables revoker.userId revoker.roleName
  have missed := @revoke_missed s.tables revoker.userId revoker.roleName
  unfold deleteRow at stepped
  split at stepped
  · split at stepped
    · rename_i tables made
      rw [made] at now
      cases stepped
      refine { sound with
        placed := forall_append sound.placed (Nat.le_refl _)
        cleared := fun deletion member => List.mem_append_left _ (sound.cleared deletion member)
        revokers := forall_set ?_ ⟨List.mem_append_right _ (List.mem_singleton_self _),rfl⟩
        table := forall_append ?_ ?_ }
      · intro other member
        apply revoker_more (sound.revokers other member)
        · exact fun deletion old => List.mem_append_left _ old
        · exact fun deletion old => old
      · intro deletion member expires_at assigned
        refine sound.table deletion member expires_at ?_
        rw [now] at assigned
        split at assigned
        · rename_i owner
          rw [owner]
          exact (Option.filter_eq_some_iff.mp assigned).1
        · exact assigned
      · intro expires_at assigned
        rw [now,if_pos rfl] at assigned
        have differs := (Option.filter_eq_some_iff.mp assigned).2
        simp at differs
    · rename_i tables made
      rw [made] at missed
      cases stepped
      refine { sound with
        revokers := forall_set sound.revokers trivial
        table := ?_ }
      intro deletion member expires_at assigned
      rw [missed rfl] at assigned
      exact sound.table deletion member expires_at assigned
  · cases stepped

theorem clearCache_sound (sound : Sound s) (found : s.revokers[k]? = some revoker) (stepped : clearCache s k revoker = some t) :
    Sound t := by
  have fits := sound.revokers revoker (List.mem_of_getElem? found)
  unfold clearCache at stepped
  unfold Revoker.Fits at fits
  split at stepped
  · rename_i deletion same
    rw [same] at fits
    obtain ⟨deleted,owner⟩ := fits
    cases stepped
    refine { sound with
      cleared := forall_append sound.cleared deleted
      finished := fun other member => List.mem_append_left _ (sound.finished other member)
      revokers := forall_set ?_ (List.mem_append_right _ (List.mem_singleton_self _))
      resolvers := ?_
      cache := forall_append ?_ ?_ }
    · intro other member
      apply revoker_more (sound.revokers other member)
      · exact fun deletion old => old
      · exact fun deletion old => List.mem_append_left _ old
    · intro resolver member
      apply resolver_more (sound.resolvers resolver member)
      · exact fun deletion old => List.mem_append_left _ old
      · exact fun deletion again => again
    · intro other member entry there role
      exact sound.cache other member entry (stored_kept there).2 role
    · intro entry there
      exact absurd (congrArg cacheKey owner) (stored_kept there).1
  · cases stepped

theorem audit_sound (sound : Sound s) (found : s.revokers[k]? = some revoker) (stepped : audit s k revoker = some t) : Sound t := by
  have fits := sound.revokers revoker (List.mem_of_getElem? found)
  unfold audit at stepped
  unfold Revoker.Fits at fits
  split at stepped
  · rename_i deletion same
    rw [same] at fits
    cases stepped
    exact { sound with
      finished := forall_append sound.finished fits
      revokers := forall_set sound.revokers trivial }
  · cases stepped

theorem insertRow_sound (sound : Sound s) (stepped : insertRow s k assigner = some t) : Sound t := by
  unfold insertRow at stepped
  split at stepped
  · rcases assign_cases s.tables assigner.data assigner.assignedBy s.now with refused | ⟨tables,row,made,now⟩
    · rw [refused] at stepped
      cases stepped
      exact { sound with }
    · rw [made] at stepped
      cases stepped
      refine { sound with
        placed := fun deletion member => (sound.placed deletion member).trans (by simp)
        resolvers := ?_
        table := ?_
        cache := fun deletion member entry there role => again_more (sound.cache deletion member entry there role) _ }
      · intro resolver member
        apply resolver_more (sound.resolvers resolver member)
        · exact fun deletion old => old
        · exact fun deletion again => again_more again _
      · intro deletion member expires_at assigned
        rw [now] at assigned
        split at assigned
        · rename_i owner
          have role : assigner.data.role_name = deletion.roleName := congrArg Prod.fst (Option.some.inj assigned)
          unfold Again
          rw [List.drop_append_of_le_length (sound.placed deletion member),owner,role]
          exact List.mem_append_right _ (List.mem_singleton_self _)
        · exact again_more (sound.table deletion member expires_at assigned) _
  · cases stepped

theorem invalidate_sound (sound : Sound s) (stepped : invalidate s k assigner = some t) : Sound t := by
  unfold invalidate at stepped
  split at stepped
  · cases stepped
    refine { sound with cache := ?_ }
    intro deletion member entry there role
    exact sound.cache deletion member entry (stored_kept there).2 role
  · cases stepped

theorem sound_step (sound : Sound s) (timely : timely s event = true) (stepped : step s event = some t) : Sound t := by
  cases event with
  | resolve userId =>
    cases stepped
    exact { sound with resolvers := forall_append sound.resolvers ⟨sound.finished,trivial⟩ }
  | get i =>
    obtain ⟨resolver,found,stepped⟩ := Option.bind_eq_some_iff.mp stepped
    exact checkCache_sound sound found stepped
  | read i =>
    obtain ⟨resolver,found,stepped⟩ := Option.bind_eq_some_iff.mp stepped
    exact readTables_sound sound found stepped
  | put i =>
    obtain ⟨resolver,found,stepped⟩ := Option.bind_eq_some_iff.mp stepped
    have checked : resolver.timely s.clearings s.assigned = true := by
      simpa only [Revocation.timely,found,Option.all_some] using timely
    exact writeCache_sound sound found checked stepped
  | revoke userId roleName =>
    cases stepped
    exact { sound with revokers := forall_append sound.revokers trivial }
  | delete k =>
    obtain ⟨revoker,-,stepped⟩ := Option.bind_eq_some_iff.mp stepped
    exact deleteRow_sound sound stepped
  | clear k =>
    obtain ⟨revoker,found,stepped⟩ := Option.bind_eq_some_iff.mp stepped
    exact clearCache_sound sound found stepped
  | audit k =>
    obtain ⟨revoker,found,stepped⟩ := Option.bind_eq_some_iff.mp stepped
    exact audit_sound sound found stepped
  | assign data assignedBy =>
    cases stepped
    exact { sound with }
  | insert k =>
    obtain ⟨assigner,-,stepped⟩ := Option.bind_eq_some_iff.mp stepped
    exact insertRow_sound sound stepped
  | invalidate k =>
    obtain ⟨assigner,-,stepped⟩ := Option.bind_eq_some_iff.mp stepped
    exact invalidate_sound sound stepped
  | advance ms =>
    cases stepped
    exact { sound with }

theorem sound_final (sound : Sound s) : Final s := by
  intro resolver member context same
  obtain ⟨-,phase⟩ := sound.resolvers resolver member
  rw [same] at phase
  exact phase

theorem revocation_final (ran : run (guarded timely step) (start tables kv now) events = some s) : Final s := by
  have begins : Sound (start tables kv now) := ⟨nofun,nofun,nofun,nofun,nofun,nofun,nofun⟩
  refine sound_final (run_keeps Sound ?_ begins ran)
  intro before event next sound stepped
  obtain ⟨allowed,taken⟩ := guarded_step.mp stepped
  exact sound_step sound allowed taken

-- u is a viewer. A call misses the cache and reads the role before a handler
-- revokes it, and caches it after the handler has returned.
def seeded : Tables where
  admin_roles := ⟨[⟨"viewer".toList,"Viewer".toList,[],[.adminRead],true,0,0⟩],by decide⟩
  admin_role_assignments := ⟨[⟨"u".toList,.viewer,"root".toList,0,none⟩],by decide⟩

def vacant : Option Kv := some fun _ => none

def racing : List Event :=
  [.resolve "u".toList,.get 0,.read 0,.revoke "u".toList .viewer,.delete 0,.clear 0,.audit 0,.put 0,.resolve "u".toList,.get 1]

def viewer : ResolvedAdminContext := ⟨"u".toList,.viewer,[.adminRead],none⟩
def viewerDeleted : Deletion := ⟨"u".toList,.viewer,0⟩

theorem racing_revives : ∃ s, run step (start seeded vacant 0) racing = some s ∧ ¬Final s := by
  refine ⟨_,rfl,?_⟩
  intro final
  have again := final ⟨"u".toList,[viewerDeleted],.returned (some viewer)⟩ (List.mem_of_getElem? (i := 1) rfl) viewer rfl
    viewerDeleted (List.mem_singleton_self _) rfl rfl
  exact absurd again (by decide)

-- The same calls, with the cache written before it is cleared.
def orderly : List Event :=
  [.resolve "u".toList,.get 0,.read 0,.revoke "u".toList .viewer,.delete 0,.put 0,.clear 0,.audit 0,.resolve "u".toList,.get 1,.read 1]

theorem orderly_final : ∃ s, run (guarded timely step) (start seeded vacant 0) orderly = some s ∧ Final s := by
  have ran : (run (guarded timely step) (start seeded vacant 0) orderly).isSome = true := by decide +kernel
  obtain ⟨s,reached⟩ := Option.isSome_iff_exists.mp ran
  exact ⟨s,reached,revocation_final reached⟩

end AdblockCompiler.Revocation
