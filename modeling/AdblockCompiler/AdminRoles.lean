import AdblockCompiler.JsText
import AdblockCompiler.KeyedRows

-- Admin roles and their assignments in D1, and the KV cache that
-- resolveAdminContext reads through.
namespace AdblockCompiler.AdminRoles
open JsText KeyedRows

inductive AdminRoleName where
  | viewer | editor | superAdmin
  deriving DecidableEq, Repr

def AdminRoleName.text : AdminRoleName → Text
  | .viewer => "viewer".toList
  | .editor => "editor".toList
  | .superAdmin => "super-admin".toList

def AdminRoleNameSchema (text : Text) : Option AdminRoleName :=
  [AdminRoleName.viewer,.editor,.superAdmin].find? fun name => name.text = text

inductive AdminPermission where
  | adminRead | adminWrite | auditRead | metricsRead | configRead | configWrite | usersRead | usersWrite | usersManage
  | flagsRead | flagsWrite | tiersRead | tiersWrite | scopesRead | scopesWrite | endpointsRead | endpointsWrite
  | announcementsRead | announcementsWrite | rolesRead | rolesWrite | rolesAssign | keysRead | keysWrite | keysRevoke
  | storageRead | storageWrite
  deriving DecidableEq, Repr

def AdminPermission.text : AdminPermission → Text
  | .adminRead => "admin:read".toList
  | .adminWrite => "admin:write".toList
  | .auditRead => "audit:read".toList
  | .metricsRead => "metrics:read".toList
  | .configRead => "config:read".toList
  | .configWrite => "config:write".toList
  | .usersRead => "users:read".toList
  | .usersWrite => "users:write".toList
  | .usersManage => "users:manage".toList
  | .flagsRead => "flags:read".toList
  | .flagsWrite => "flags:write".toList
  | .tiersRead => "tiers:read".toList
  | .tiersWrite => "tiers:write".toList
  | .scopesRead => "scopes:read".toList
  | .scopesWrite => "scopes:write".toList
  | .endpointsRead => "endpoints:read".toList
  | .endpointsWrite => "endpoints:write".toList
  | .announcementsRead => "announcements:read".toList
  | .announcementsWrite => "announcements:write".toList
  | .rolesRead => "roles:read".toList
  | .rolesWrite => "roles:write".toList
  | .rolesAssign => "roles:assign".toList
  | .keysRead => "keys:read".toList
  | .keysWrite => "keys:write".toList
  | .keysRevoke => "keys:revoke".toList
  | .storageRead => "storage:read".toList
  | .storageWrite => "storage:write".toList

-- Times are in milliseconds. permissions is the list that the column spells.
structure AdminRoleRow where
  role_name : Text
  display_name : Text
  description : Text
  permissions : List AdminPermission
  is_active : Bool
  created_at : Int
  updated_at : Int

structure AdminRoleAssignmentRow where
  user_id : Text
  role_name : AdminRoleName
  assigned_by : Text
  assigned_at : Int
  expires_at : Option Int

structure ResolvedAdminContext where
  user_id : Text
  role_name : AdminRoleName
  permissions : List AdminPermission
  expires_at : Option Int
  deriving DecidableEq

structure Tables where
  admin_roles : Table AdminRoleRow.role_name
  admin_role_assignments : Table AdminRoleAssignmentRow.user_id

-- What the schemas make of the bodies of requests.
structure CreateAdminRoleRequest where
  role_name : Text
  display_name : Text
  description : Text
  permissions : List AdminPermission

structure UpdateAdminRoleRequest where
  display_name : Option Text
  description : Option Text
  permissions : Option (List AdminPermission)
  is_active : Option Bool

structure AssignRoleRequest where
  user_id : Text
  role_name : AdminRoleName
  expires_at : Option Int

-- An entry of the KV namespace is there until it expires.
structure Entry where
  context : ResolvedAdminContext
  expires : Int

abbrev Kv := Text → Option Entry

def KV_PREFIX : Text := "admin:role:".toList
def CACHE_TTL_SECONDS : Nat := 300

def cacheKey (userId : Text) : Text := KV_PREFIX ++ userId

theorem cacheKey_injective : cacheKey one = cacheKey two ↔ one = two := List.append_right_inj KV_PREFIX

-- The binding of the namespace is optional.
def kvGet (kv : Option Kv) (now : Int) (key : Text) : Option ResolvedAdminContext := do
  let entries ← kv
  let entry ← entries key
  if now < entry.expires then some entry.context else none

def kvPut (kv : Option Kv) (now : Int) (key : Text) (context : ResolvedAdminContext) : Option Kv :=
  kv.map fun entries => Function.update entries key (some ⟨context,now+CACHE_TTL_SECONDS*1000⟩)

def kvDelete (kv : Option Kv) (key : Text) : Option Kv := kv.map fun entries => Function.update entries key none

def invalidateRoleCache (kv : Option Kv) (userId : Text) : Option Kv := kvDelete kv (cacheKey userId)

-- FROM admin_role_assignments a JOIN admin_roles r ON r.role_name = a.role_name
-- AND r.is_active = 1 WHERE a.user_id = userId
def joined (tables : Tables) (userId : Text) : List (AdminRoleAssignmentRow × AdminRoleRow) :=
  (tables.admin_role_assignments.rows.filter fun assignment => assignment.user_id = userId).flatMap fun assignment =>
    (tables.admin_roles.rows.filter fun role => role.role_name = assignment.role_name.text && role.is_active).map (assignment,·)

-- ORDER BY a.assigned_at DESC LIMIT 1
def firstRow (tables : Tables) (userId : Text) : Option (AdminRoleAssignmentRow × AdminRoleRow) :=
  ((joined tables userId).insertionSort fun one two => one.1.assigned_at ≥ two.1.assigned_at).head?

def expired (expires_at : Option Int) (now : Int) : Bool := expires_at.any (· < now)

-- What resolveAdminContext returns and caches when the cache has nothing.
def lookupContext (tables : Tables) (userId : Text) (now : Int) : Option ResolvedAdminContext :=
  match firstRow tables userId with
  | none => none
  | some (assignment,role) =>
    if expired assignment.expires_at now then none
    else some ⟨assignment.user_id,assignment.role_name,role.permissions,assignment.expires_at⟩

def resolveAdminContext (tables : Tables) (kv : Option Kv) (now : Int) (userId : Text) :
    Option ResolvedAdminContext × Option Kv :=
  match kvGet kv now (cacheKey userId) with
  | some context => (some context,kv)
  | none =>
    match lookupContext tables userId now with
    | none => (none,kv)
    | some context => (some context,kvPut kv now (cacheKey userId) context)

-- What a call comes back with. An error is thrown by D1 or by a schema.
inductive Called (α : Type) where
  | threw
  | returned (value : α)

-- AdminRoleRowSchema.parse, which knows the built-in roles only.
def parseRole (row : AdminRoleRow) : Called AdminRoleRow :=
  match AdminRoleNameSchema row.role_name with
  | none => .threw
  | some _ => .returned row

def listRoles (tables : Tables) : Called (List AdminRoleRow) :=
  let rows := (tables.admin_roles.rows.filter (·.is_active)).insertionSort fun one two => one.role_name ≤ two.role_name
  if rows.all fun row => (AdminRoleNameSchema row.role_name).isSome then .returned rows else .threw

def getRoleByName (tables : Tables) (roleName : Text) : Called (Option AdminRoleRow) :=
  match tables.admin_roles.find roleName with
  | none => .returned none
  | some row =>
    match parseRole row with
    | .threw => .threw
    | .returned row => .returned (some row)

-- The row is inserted before it is parsed.
def createRole (tables : Tables) (data : CreateAdminRoleRequest) (now : Int) : Tables × Called AdminRoleRow :=
  let row : AdminRoleRow :=
    { role_name := data.role_name
      display_name := data.display_name
      description := data.description
      permissions := data.permissions
      is_active := true
      created_at := now
      updated_at := now }
  if fresh : tables.admin_roles.find row.role_name = none then
    ({ tables with admin_roles := tables.admin_roles.insert row fresh },parseRole row)
  else (tables,.threw)

def setClauses (data : UpdateAdminRoleRequest) (now : Int) (row : AdminRoleRow) : AdminRoleRow :=
  { row with
    display_name := data.display_name.getD row.display_name
    description := data.description.getD row.description
    permissions := data.permissions.getD row.permissions
    is_active := data.is_active.getD row.is_active
    updated_at := now }

def updateRole (tables : Tables) (roleName : Text) (data : UpdateAdminRoleRequest) (now : Int) :
    Tables × Called (Option AdminRoleRow) :=
  if data.display_name.isNone && data.description.isNone && data.permissions.isNone && data.is_active.isNone then
    (tables,getRoleByName tables roleName)
  else
    let updated := { tables with admin_roles := tables.admin_roles.update roleName (setClauses data now) fun _ named => named }
    (updated,getRoleByName updated roleName)

-- role_name REFERENCES admin_roles, and ON CONFLICT(user_id) DO UPDATE.
def assignRole (tables : Tables) (data : AssignRoleRequest) (assignedBy : Text) (now : Int) :
    Tables × Called AdminRoleAssignmentRow :=
  if (tables.admin_roles.find data.role_name.text).isSome then
    let row : AdminRoleAssignmentRow := ⟨data.user_id,data.role_name,assignedBy,now,data.expires_at⟩
    ({ tables with admin_role_assignments := tables.admin_role_assignments.upsert row },.returned row)
  else (tables,.threw)

def revokeRole (tables : Tables) (userId : Text) (roleName : AdminRoleName) : Tables × Bool :=
  let changes := tables.admin_role_assignments.rows.countP fun row => row.user_id = userId && row.role_name = roleName
  ({ tables with
      admin_role_assignments := tables.admin_role_assignments.delete userId fun row => row.role_name = roleName },
    changes > 0)

-- What the tables say of a user: the role assigned, active and unexpired.
def granted (tables : Tables) (userId : Text) (now : Int) : Option ResolvedAdminContext := do
  let assignment ← tables.admin_role_assignments.find userId
  let role ← tables.admin_roles.find assignment.role_name.text
  if role.is_active && !expired assignment.expires_at now then
    some ⟨userId,assignment.role_name,role.permissions,assignment.expires_at⟩
  else none

theorem joined_find (tables : Tables) (userId : Text) :
    joined tables userId = ((tables.admin_role_assignments.find userId).bind fun assignment =>
      ((tables.admin_roles.find assignment.role_name.text).filter (·.is_active)).map (assignment,·)).toList := by
  have selected (assignment : AdminRoleAssignmentRow) :
      (tables.admin_roles.rows.filter fun role => role.role_name = assignment.role_name.text && role.is_active) =
        ((tables.admin_roles.find assignment.role_name.text).filter (·.is_active)).toList := by
    have named := select_find tables.admin_roles assignment.role_name.text
    have both : (tables.admin_roles.rows.filter fun role => role.role_name = assignment.role_name.text && role.is_active) =
        (tables.admin_roles.rows.filter fun role => role.role_name = assignment.role_name.text).filter (·.is_active) := by
      simp only [List.filter_filter,Bool.and_comm]
    rw [both,named]
    cases tables.admin_roles.find assignment.role_name.text with
    | none => rfl
    | some role =>
      cases active : role.is_active with
      | false => simp [active]
      | true => simp [Option.filter,active]
  unfold joined
  rw [select_find]
  cases tables.admin_role_assignments.find userId with
  | none => rfl
  | some assignment =>
    simp only [Option.toList_some,List.flatMap_cons,List.flatMap_nil,List.append_nil,Option.bind_some]
    rw [selected]
    cases (tables.admin_roles.find assignment.role_name.text).filter (·.is_active) <;> rfl

theorem lookup_granted (tables : Tables) (userId : Text) (now : Int) : lookupContext tables userId now = granted tables userId now := by
  unfold lookupContext firstRow granted
  rw [joined_find]
  cases assigned : tables.admin_role_assignments.find userId with
  | none => simp
  | some assignment =>
    have owner := (find_exact.mp assigned).2
    cases named : tables.admin_roles.find assignment.role_name.text with
    | none => simp [named]
    | some role =>
      cases active : role.is_active with
      | false => simp [named,Option.filter,active]
      | true =>
        cases past : expired assignment.expires_at now with
        | false => simp [named,Option.filter,active,past,owner]
        | true => simp [named,Option.filter,active,past]

-- The role and the expiry that are assigned to a user, active or not.
def held (tables : Tables) (userId : Text) : Option (AdminRoleName × Option Int) :=
  (tables.admin_role_assignments.find userId).map fun assignment => (assignment.role_name,assignment.expires_at)

theorem granted_held (found : granted tables userId now = some context) :
    context.user_id = userId ∧ held tables userId = some (context.role_name,context.expires_at) := by
  obtain ⟨assignment,assigned,rest⟩ := Option.bind_eq_some_iff.mp found
  obtain ⟨role,-,rest⟩ := Option.bind_eq_some_iff.mp rest
  split at rest
  · cases rest
    exact ⟨rfl,congrArg (Option.map _) assigned⟩
  · cases rest

theorem held_create (tables : Tables) (data : CreateAdminRoleRequest) (now : Int) (userId : Text) :
    held (createRole tables data now).1 userId = held tables userId := by
  unfold createRole
  dsimp only
  split <;> rfl

theorem held_update (tables : Tables) (roleName : Text) (data : UpdateAdminRoleRequest) (now : Int) (userId : Text) :
    held (updateRole tables roleName data now).1 userId = held tables userId := by
  unfold updateRole
  split <;> rfl

theorem assign_cases (tables : Tables) (data : AssignRoleRequest) (assignedBy : Text) (now : Int) :
    assignRole tables data assignedBy now = (tables,.threw) ∨
    ∃ assigned row, assignRole tables data assignedBy now = (assigned,.returned row) ∧
      ∀ userId, held assigned userId = if userId = data.user_id then some (data.role_name,data.expires_at) else held tables userId := by
  by_cases known : (tables.admin_roles.find data.role_name.text).isSome
  · refine .inr ⟨_,_,if_pos known,?_⟩
    intro userId
    simp only [held,find_upsert]
    split <;> rfl
  · exact .inl (if_neg known)

theorem held_revoke (tables : Tables) (userId : Text) (roleName : AdminRoleName) (other : Text) :
    held (revokeRole tables userId roleName).1 other =
      if other = userId then (held tables userId).filter fun assigned => assigned.1 ≠ roleName else held tables other := by
  simp only [held,revokeRole,find_delete]
  split
  · cases tables.admin_role_assignments.find userId with
    | none => rfl
    | some row =>
      by_cases same : row.role_name = roleName
      · simp [Option.filter,same]
      · simp [Option.filter,same]
  · rfl

-- A DELETE that changes nothing finds nothing to change.
theorem revoke_missed (missed : (revokeRole tables userId roleName).2 = false) (other : Text) :
    held (revokeRole tables userId roleName).1 other = held tables other := by
  rw [held_revoke]
  split
  · rename_i same
    subst same
    cases assigned : tables.admin_role_assignments.find other with
    | none => simp [held,assigned]
    | some row =>
      obtain ⟨member,owner⟩ := find_exact.mp assigned
      have zero := List.countP_eq_zero.mp (Nat.eq_zero_of_not_pos (of_decide_eq_false missed)) row member
      have differs : row.role_name ≠ roleName := by simpa [owner] using zero
      simp [held,assigned,Option.filter,differs]
  · rfl

-- Everything an entry of the namespace says, expired or not.
def stored (kv : Option Kv) (key : Text) : Option Entry := kv.bind (· key)

theorem kvGet_exact : kvGet kv now key = some context ↔
    ∃ entry, stored kv key = some entry ∧ now < entry.expires ∧ entry.context = context := by
  constructor
  · intro got
    obtain ⟨entries,bound,rest⟩ := Option.bind_eq_some_iff.mp got
    obtain ⟨entry,found,rest⟩ := Option.bind_eq_some_iff.mp rest
    obtain ⟨alive,same⟩ := Option.ite_none_right_eq_some.mp rest
    exact ⟨entry,Option.bind_eq_some_iff.mpr ⟨entries,bound,found⟩,alive,Option.some.inj same⟩
  · intro held
    obtain ⟨entry,there,alive,same⟩ := held
    obtain ⟨entries,bound,found⟩ := Option.bind_eq_some_iff.mp there
    simp only [kvGet,bound,found,Option.bind_eq_bind,Option.bind_some,alive,if_true,same]

-- An entry that is there after an invalidation was there before, and is not
-- that of the user.
theorem stored_kept (kept : stored (invalidateRoleCache kv userId) key = some entry) :
    key ≠ cacheKey userId ∧ stored kv key = some entry := by
  cases kv with
  | none => cases kept
  | some entries =>
    simp only [stored,invalidateRoleCache,kvDelete,Option.map_some,Option.bind_some,Function.update_apply] at kept ⊢
    split at kept
    · cases kept
    · exact ⟨‹_›,kept⟩

theorem stored_put (put : stored (kvPut kv now key context) other = some entry) :
    other = key ∧ entry = ⟨context,now+CACHE_TTL_SECONDS*1000⟩ ∨ other ≠ key ∧ stored kv other = some entry := by
  cases kv with
  | none => cases put
  | some entries =>
    simp only [stored,kvPut,Option.map_some,Option.bind_some,Function.update_apply] at put ⊢
    split at put
    · exact .inl ⟨‹_›,(Option.some.inj put).symm⟩
    · exact .inr ⟨‹_›,put⟩

end AdblockCompiler.AdminRoles
