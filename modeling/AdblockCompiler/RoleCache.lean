import AdblockCompiler.AdminRoles
import AdblockCompiler.Schedules

-- The admin handlers that change roles, and resolveAdminContext, called one
-- after another while time passes.
namespace AdblockCompiler.RoleCache
open JsText Schedules KeyedRows AdminRoles

inductive Response where
  | error (error : Text) (status : Nat)
  | role (role : AdminRoleRow) (status : Nat)
  | assignment (assignment : AdminRoleAssignmentRow)
  | message (message : Text)

-- What verifyToken makes of a request.
inductive AuthResult where
  | threw
  | settled (valid : Bool) (providerUserId role error : Option Text)

inductive Body (α : Type) where
  | malformed
  | rejected (issues : List Text)
  | parsed (data : α)

-- One answer of resolveAdminContext, and as history what the tables said then.
structure Answer where
  context : Option ResolvedAdminContext
  truth : Option ResolvedAdminContext

structure State where
  tables : Tables
  kv : Option Kv
  now : Int
  answers : List Answer

def start (tables : Tables) (bound : Bool) (now : Int) : State := ⟨tables,if bound then some fun _ => none else none,now,[]⟩

def State.resolve (s : State) (userId : Text) : Option ResolvedAdminContext × State :=
  let resolved := resolveAdminContext s.tables s.kv s.now userId
  (resolved.1,{ s with kv := resolved.2, answers := s.answers ++ [⟨resolved.1,granted s.tables userId s.now⟩] })

-- resolveAuthenticatedAdmin up to the call of resolveAdminContext.
def actor : AuthResult → Except Response Text
  | .threw => .error (.error "Internal error during authentication".toList 500)
  | .settled valid providerUserId role error =>
    let userId := providerUserId.getD []
    if !valid || userId = [] then .error (.error (error.getD "Invalid or missing authentication token".toList) 401)
    else if role ≠ some "admin".toList then .error (.error "Insufficient privileges: admin role required".toList 403)
    else .ok userId

def resolveAuthenticatedAdmin (s : State) (auth : AuthResult) : Except Response ResolvedAdminContext × State :=
  match actor auth with
  | .error response => (.error response,s)
  | .ok userId =>
    match s.resolve userId with
    | (none,s) => (.error (.error "No active admin role assignment".toList 403),s)
    | (some adminContext,s) => (.ok adminContext,s)

def requireAdminPermission (permission : AdminPermission) (s : State) (auth : AuthResult) :
    Except Response ResolvedAdminContext × State :=
  match resolveAuthenticatedAdmin s auth with
  | (.error response,s) => (.error response,s)
  | (.ok adminContext,s) =>
    if adminContext.role_name = .superAdmin || adminContext.permissions.contains permission then (.ok adminContext,s)
    else (.error (.error ("Missing required permission: ".toList ++ permission.text) 403),s)

def parseBody : Body α → Except Response α
  | .malformed => .error (.error "Invalid JSON body".toList 400)
  | .rejected issues => .error (.error (issues.headD "Invalid request body".toList) 400)
  | .parsed data => .ok data

-- The handlers guard, read their input, and only then run an operation.
def handled (permission : AdminPermission) (s : State) (auth : AuthResult) (input : Except Response α)
    (operation : ResolvedAdminContext → α → State → Called Response × State) : Called Response × State :=
  match requireAdminPermission permission s auth with
  | (.error response,s) => (.returned response,s)
  | (.ok adminContext,s) =>
    match input with
    | .error response => (.returned response,s)
    | .ok data => operation adminContext data s

def handleAdminCreateRole (s : State) (auth : AuthResult) (body : Body CreateAdminRoleRequest) : Called Response × State :=
  handled .rolesWrite s auth (parseBody body) fun _ data s =>
    match createRole s.tables data s.now with
    | (tables,.threw) => (.threw,{ s with tables := tables })
    | (tables,.returned role) => (.returned (.role role 201),{ s with tables := tables })

-- The old role is looked for among all active ones, for the audit log.
def handleAdminUpdateRole (s : State) (auth : AuthResult) (roleName : Text) (body : Body UpdateAdminRoleRequest) :
    Called Response × State :=
  let input := if roleName = [] then .error (.error "Missing role name in URL".toList 400) else parseBody body
  handled .rolesWrite s auth input fun _ data s =>
    match listRoles s.tables with
    | .threw => (.threw,s)
    | .returned _ =>
      match updateRole s.tables roleName data s.now with
      | (tables,.threw) => (.threw,{ s with tables := tables })
      | (tables,.returned none) => (.returned (.error "Role not found".toList 404),{ s with tables := tables })
      | (tables,.returned (some role)) => (.returned (.role role 200),{ s with tables := tables })

def handleAdminAssignRole (s : State) (auth : AuthResult) (body : Body AssignRoleRequest) : Called Response × State :=
  handled .rolesAssign s auth (parseBody body) fun adminContext data s =>
    match assignRole s.tables data adminContext.user_id s.now with
    | (tables,.threw) => (.threw,{ s with tables := tables })
    | (tables,.returned assignment) =>
      (.returned (.assignment assignment),{ s with tables := tables, kv := invalidateRoleCache s.kv data.user_id })

def handleAdminRevokeRole (s : State) (auth : AuthResult) (body : Body AssignRoleRequest) : Called Response × State :=
  handled .rolesAssign s auth (parseBody body) fun _ data s =>
    match revokeRole s.tables data.user_id data.role_name with
    | (tables,false) => (.returned (.error "Role assignment not found".toList 404),{ s with tables := tables })
    | (tables,true) =>
      (.returned (.message "Role assignment revoked".toList),{ s with tables := tables, kv := invalidateRoleCache s.kv data.user_id })

inductive Event where
  | resolve (userId : Text)
  | create (auth : AuthResult) (body : Body CreateAdminRoleRequest)
  | update (auth : AuthResult) (roleName : Text) (body : Body UpdateAdminRoleRequest)
  | assign (auth : AuthResult) (body : Body AssignRoleRequest)
  | revoke (auth : AuthResult) (body : Body AssignRoleRequest)
  | advance (ms : Nat)

def perform (s : State) : Event → State
  | .resolve userId => (s.resolve userId).2
  | .create auth body => (handleAdminCreateRole s auth body).2
  | .update auth roleName body => (handleAdminUpdateRole s auth roleName body).2
  | .assign auth body => (handleAdminAssignRole s auth body).2
  | .revoke auth body => (handleAdminRevokeRole s auth body).2
  | .advance ms => { s with now := s.now+ms }

def step (s : State) (event : Event) : Option State := some (perform s event)

-- Whose context a step resolves, before it does anything else.
def asked (auth : AuthResult) : Option Text :=
  match actor auth with
  | .error _ => none
  | .ok userId => some userId

def resolves : Event → Option Text
  | .resolve userId => some userId
  | .create auth _ | .update auth _ _ | .assign auth _ | .revoke auth _ => asked auth
  | .advance _ => none

def Transparent (s : State) : Prop := ∀ answer ∈ s.answers, answer.context = answer.truth

-- A context is served from the cache only while its role is active with the
-- permissions that were cached, and only up to its expiry.
def served (s : State) (userId : Text) : Bool :=
  match kvGet s.kv s.now (cacheKey userId) with
  | none => true
  | some context =>
    ((s.tables.admin_roles.find context.role_name.text).any fun role =>
      role.is_active && role.permissions = context.permissions) && !expired context.expires_at s.now

def current (s : State) (event : Event) : Bool :=
  match resolves event with
  | none => true
  | some userId => served s userId

-- What is cached of a user was assigned to that user, and still is.
def Coherent (tables : Tables) (kv : Option Kv) : Prop :=
  ∀ userId entry, stored kv (cacheKey userId) = some entry →
    entry.context.user_id = userId ∧ held tables userId = some (entry.context.role_name,entry.context.expires_at)

theorem served_exact {s : State} (coherent : Coherent s.tables s.kv) (userId : Text) :
    (s.resolve userId).1 = granted s.tables userId s.now ↔ served s userId = true := by
  simp only [State.resolve,resolveAdminContext,served]
  cases got : kvGet s.kv s.now (cacheKey userId) with
  | none =>
    refine iff_of_true ?_ rfl
    rw [lookup_granted]
    cases granted s.tables userId s.now <;> rfl
  | some context =>
    obtain ⟨entry,there,-,rfl⟩ := kvGet_exact.mp got
    obtain ⟨owner,assigned⟩ := coherent userId entry there
    obtain ⟨row,found,same⟩ := Option.map_eq_some_iff.mp assigned
    obtain ⟨role_name,expires_at⟩ := Prod.mk.inj same
    simp only [granted,found,role_name,expires_at,Option.bind_eq_bind,Option.bind_some]
    cases named : s.tables.admin_roles.find entry.context.role_name.text with
    | none => simp
    | some role =>
      constructor
      · intro equal
        simp only [Option.bind_some] at equal
        split at equal
        · rename_i grants
          obtain ⟨active,unexpired⟩ := Bool.and_eq_true_iff.mp grants
          have permissions : entry.context.permissions = role.permissions := congrArg ResolvedAdminContext.permissions (Option.some.inj equal)
          simp only [Option.any_some,active,permissions,unexpired,decide_true,Bool.and_self]
        · cases equal
      · intro holds
        obtain ⟨same,unexpired⟩ := Bool.and_eq_true_iff.mp holds
        obtain ⟨active,permissions⟩ := Bool.and_eq_true_iff.mp same
        simp only [Option.bind_some,active,unexpired,Bool.and_self,if_true,of_decide_eq_true permissions,← owner]

theorem coherent_resolve {s : State} (coherent : Coherent s.tables s.kv) (userId : Text) :
    Coherent (s.resolve userId).2.tables (s.resolve userId).2.kv := by
  simp only [State.resolve,resolveAdminContext]
  split
  · exact coherent
  · rw [lookup_granted]
    cases found : granted s.tables userId s.now with
    | none => exact coherent
    | some context =>
      intro other entry there
      rcases stored_put there with ⟨same,rfl⟩ | ⟨-,old⟩
      · obtain rfl := cacheKey_injective.mp same
        exact granted_held found
      · exact coherent other entry old

-- What a handler does after it resolved its actor: nothing that the cache
-- depends on, or something about one user whose entry it deletes.
inductive Operates (s t : State) : Prop where
  | apart (kv : t.kv = s.kv) (same : ∀ userId, held t.tables userId = held s.tables userId) (answers : t.answers = s.answers)
  | about (userId : Text) (kv : t.kv = invalidateRoleCache s.kv userId)
      (others : ∀ other, other ≠ userId → held t.tables other = held s.tables other) (answers : t.answers = s.answers)

def after (s : State) : Option Text → State
  | none => s
  | some userId => (s.resolve userId).2

theorem guard_after (permission : AdminPermission) (s : State) (auth : AuthResult) :
    (requireAdminPermission permission s auth).2 = after s (asked auth) := by
  unfold requireAdminPermission resolveAuthenticatedAdmin asked
  cases actor auth with
  | error response => rfl
  | ok userId =>
    dsimp only
    cases resolved : s.resolve userId with
    | mk context next =>
      cases context with
      | none => simp [after,resolved]
      | some adminContext =>
        dsimp only
        split <;> simp [after,resolved]

theorem handled_operates (permission : AdminPermission) (s : State) (auth : AuthResult) (input : Except Response α)
    {operation : ResolvedAdminContext → α → State → Called Response × State}
    (operates : ∀ adminContext data s, Operates s (operation adminContext data s).2) :
    Operates (after s (asked auth)) (handled permission s auth input operation).2 := by
  rw [← guard_after permission]
  unfold handled
  cases requireAdminPermission permission s auth with
  | mk guard next =>
    cases guard with
    | error response => exact .apart rfl (fun _ => rfl) rfl
    | ok adminContext =>
      cases input with
      | error response => exact .apart rfl (fun _ => rfl) rfl
      | ok data => exact operates adminContext data next

theorem create_operates (s : State) (auth : AuthResult) (body : Body CreateAdminRoleRequest) :
    Operates (after s (asked auth)) (handleAdminCreateRole s auth body).2 := by
  apply handled_operates
  intro _ data s
  have same := held_create s.tables data s.now
  cases made : createRole s.tables data s.now with
  | mk tables role =>
    rw [made] at same
    cases role with
    | threw => exact .apart rfl same rfl
    | returned role => exact .apart rfl same rfl

theorem update_operates (s : State) (auth : AuthResult) (roleName : Text) (body : Body UpdateAdminRoleRequest) :
    Operates (after s (asked auth)) (handleAdminUpdateRole s auth roleName body).2 := by
  apply handled_operates
  intro _ data s
  cases listRoles s.tables with
  | threw => exact .apart rfl (fun _ => rfl) rfl
  | returned roles =>
    have same := held_update s.tables roleName data s.now
    cases made : updateRole s.tables roleName data s.now with
    | mk tables role =>
      rw [made] at same
      cases role with
      | threw => exact .apart rfl same rfl
      | returned role =>
        cases role with
        | none => exact .apart rfl same rfl
        | some role => exact .apart rfl same rfl

theorem assign_operates (s : State) (auth : AuthResult) (body : Body AssignRoleRequest) :
    Operates (after s (asked auth)) (handleAdminAssignRole s auth body).2 := by
  apply handled_operates
  intro adminContext data s
  rcases assign_cases s.tables data adminContext.user_id s.now with refused | ⟨assigned,row,made,now⟩
  · simp only [refused]
    exact .apart rfl (fun _ => rfl) rfl
  · simp only [made]
    refine .about data.user_id rfl ?_ rfl
    intro other apart
    exact (now other).trans (if_neg apart)

theorem revoke_operates (s : State) (auth : AuthResult) (body : Body AssignRoleRequest) :
    Operates (after s (asked auth)) (handleAdminRevokeRole s auth body).2 := by
  apply handled_operates
  intro _ data s
  have now := held_revoke s.tables data.user_id data.role_name
  have missed := @revoke_missed s.tables data.user_id data.role_name
  cases made : revokeRole s.tables data.user_id data.role_name with
  | mk tables deleted =>
    rw [made] at now missed
    cases deleted with
    | false => exact .apart rfl (missed rfl) rfl
    | true =>
      refine .about data.user_id rfl ?_ rfl
      intro other apart
      exact (now other).trans (if_neg apart)

theorem step_operates (s : State) (event : Event) : Operates (after s (resolves event)) (perform s event) := by
  cases event with
  | resolve userId => exact .apart rfl (fun _ => rfl) rfl
  | create auth body => exact create_operates s auth body
  | update auth roleName body => exact update_operates s auth roleName body
  | assign auth body => exact assign_operates s auth body
  | revoke auth body => exact revoke_operates s auth body
  | advance ms => exact .apart rfl (fun _ => rfl) rfl

theorem coherent_after {s : State} (coherent : Coherent s.tables s.kv) (asks : Option Text) :
    Coherent (after s asks).tables (after s asks).kv := by
  cases asks with
  | none => exact coherent
  | some userId => exact coherent_resolve coherent userId

theorem coherent_operates {s t : State} (coherent : Coherent s.tables s.kv) (operates : Operates s t) : Coherent t.tables t.kv := by
  cases operates with
  | apart kv same answers =>
    intro userId entry there
    rw [kv] at there
    rw [same userId]
    exact coherent userId entry there
  | about changed kv others answers =>
    intro userId entry there
    rw [kv] at there
    obtain ⟨distinct,before⟩ := stored_kept there
    have apart : userId ≠ changed := fun same => distinct (congrArg cacheKey same)
    rw [others userId apart]
    exact coherent userId entry before

theorem answers_perform (s : State) (event : Event) : (perform s event).answers = (after s (resolves event)).answers := by
  cases step_operates s event with
  | apart _ _ answers => exact answers
  | about _ _ _ answers => exact answers

theorem transparent_exact {s : State} (coherent : Coherent s.tables s.kv) (before : Transparent s) (event : Event) :
    Transparent (perform s event) ↔ current s event = true := by
  unfold Transparent current
  rw [answers_perform]
  cases resolves event with
  | none => exact iff_of_true before rfl
  | some userId =>
    have exactly := served_exact coherent userId
    constructor
    · intro all
      exact exactly.mp (all ⟨_,_⟩ (List.mem_append_right _ (List.mem_singleton_self _)))
    · intro holds answer member
      rcases List.mem_append.mp member with old | new
      · exact before answer old
      · rw [List.mem_singleton.mp new]
        exact exactly.mpr holds

theorem coherent_start (tables : Tables) (bound : Bool) (now : Int) :
    Coherent (start tables bound now).tables (start tables bound now).kv := by
  intro userId entry there
  cases bound <;> cases there

theorem transparency_exact (tables : Tables) (bound : Bool) (now : Int) (events : List Event) :
    Along step (fun _ _ t => Transparent t) (start tables bound now) events ↔
      Along step (fun s event _ => current s event = true) (start tables bound now) events := by
  refine along_exact (fun s => Coherent s.tables s.kv ∧ Transparent s) ?_ ?_ ⟨coherent_start tables bound now,nofun⟩
  · intro s event t kept stepped transparent
    obtain rfl := Option.some.inj stepped
    exact ⟨coherent_operates (coherent_after kept.1 _) (step_operates s event),transparent⟩
  · intro s event t kept stepped
    obtain rfl := Option.some.inj stepped
    exact transparent_exact kept.1 kept.2 event

-- The built-in roles, with fewer permissions than the migration gives them; a
-- super-admin, a viewer, and a viewer until 100.
def seededRoles : Table AdminRoleRow.role_name where
  rows := [⟨"viewer".toList,"Viewer".toList,[],[.adminRead],true,0,0⟩,⟨"editor".toList,"Editor".toList,[],[.adminRead,.configWrite],true,0,0⟩,
    ⟨"super-admin".toList,"Super Admin".toList,[],[.adminRead,.rolesWrite,.rolesAssign],true,0,0⟩]
  unique := by decide

def seeded : Tables where
  admin_roles := seededRoles
  admin_role_assignments := ⟨[⟨"root".toList,.superAdmin,"root".toList,0,none⟩,⟨"u".toList,.viewer,"root".toList,0,none⟩,
    ⟨"v".toList,.viewer,"root".toList,0,some 100⟩],by decide⟩

def root : AuthResult := .settled true (some "root".toList) (some "admin".toList) none

-- A role is deactivated while a context of it is cached; and one that is cached
-- reaches its expiry.
def deactivated : List Event :=
  [.resolve "u".toList,.update root "viewer".toList (.parsed ⟨none,none,none,some false⟩),.resolve "u".toList]

def expiring : List Event := [.resolve "v".toList,.advance 101,.resolve "v".toList]

instance (s : State) : Decidable (Transparent s) := inferInstanceAs (Decidable (∀ answer ∈ s.answers, answer.context = answer.truth))

theorem stale_served : ¬Along step (fun _ _ t => Transparent t) (start seeded true 0) deactivated ∧
    ¬Along step (fun _ _ t => Transparent t) (start seeded true 0) expiring := by
  constructor
  · intro along
    have ran : run step (start seeded true 0) deactivated = some _ := rfl
    exact absurd (along_reaches nofun along ran) (by decide +kernel)
  · intro along
    have ran : run step (start seeded true 0) expiring = some _ := rfl
    exact absurd (along_reaches nofun along ran) (by decide +kernel)

end AdblockCompiler.RoleCache
