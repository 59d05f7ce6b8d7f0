import AdblockCompiler.Authentication

-- The registry of route permissions, its resolver and the check of a request
-- against what it finds.
namespace AdblockCompiler.RoutePermissions
open JsText AuthContexts

structure RoutePermission where
  minTier : UserTier
  requiredRole : Option Text
  description : Text
  deriving DecidableEq, Repr

structure AgentRegistryEntry where
  slug : Text
  displayName : Text
  requiredTier : UserTier
  enabled : Bool

def AGENT_REGISTRY : List AgentRegistryEntry := [⟨"mcp-agent".toList,"Playwright MCP Agent".toList,.Admin,true⟩]

-- The entries of a Map in the order of its iteration. Its keys are distinct.
abbrev Registry := List (Text × RoutePermission)

def AGENT_ROUTES : Registry := (AGENT_REGISTRY.filter AgentRegistryEntry.enabled).map fun entry =>
  ("/agents/".toList ++ entry.slug ++ "/*".toList,⟨entry.requiredTier,none,entry.displayName⟩)

def ROUTE_PERMISSION_REGISTRY : Registry := [
  ("/health".toList,⟨.Anonymous,none,"Health check".toList⟩),
  ("/health/*".toList,⟨.Anonymous,none,"Health sub-endpoints".toList⟩),
  ("/container/status".toList,⟨.Anonymous,none,"Container lifecycle status (public probe)".toList⟩),
  ("/metrics".toList,⟨.Anonymous,none,"Public aggregate metrics".toList⟩),
  ("/browser/health".toList,⟨.Anonymous,none,"Browser Rendering binding health check".toList⟩),
  ("/webhooks/*".toList,⟨.Anonymous,none,"Webhook receivers (self-authenticated)".toList⟩),
  ("/docs".toList,⟨.Anonymous,none,"API documentation (Scalar UI)".toList⟩),
  ("/swagger".toList,⟨.Anonymous,none,"API documentation (Swagger UI)".toList⟩),
  ("/redoc".toList,⟨.Anonymous,none,"API documentation (ReDoc / Scalar classic)".toList⟩),
  ("/docs/*".toList,⟨.Anonymous,none,"API documentation pages (Scalar UI)".toList⟩),
  ("/swagger/*".toList,⟨.Anonymous,none,"API documentation pages (Swagger UI)".toList⟩),
  ("/redoc/*".toList,⟨.Anonymous,none,"API documentation pages (ReDoc)".toList⟩),
  ("/compile".toList,⟨.Free,none,"Compile filter lists".toList⟩),
  ("/compile/stream".toList,⟨.Free,none,"Streaming compile".toList⟩),
  ("/compile/batch".toList,⟨.Free,none,"Batch compile".toList⟩),
  ("/compile/container".toList,⟨.Free,none,"Container-proxied compile".toList⟩),
  ("/ast/parse".toList,⟨.Free,none,"Parse rules to AST".toList⟩),
  ("/validate".toList,⟨.Free,none,"Validate filter rules".toList⟩),
  ("/validate-rule".toList,⟨.Free,none,"Validate single rule".toList⟩),
  ("/diff".toList,⟨.Free,none,"Diff two filter lists via AGTree AST".toList⟩),
  ("/ws/compile".toList,⟨.Free,none,"WebSocket compile (Free+)".toList⟩),
  ("/ws/compile/v2".toList,⟨.Free,none,"Hibernatable WebSocket compile via DO (Free+)".toList⟩),
  ("/keys".toList,⟨.Free,none,"API key management".toList⟩),
  ("/keys/*".toList,⟨.Free,none,"API key operations".toList⟩),
  ("/rules".toList,⟨.Free,none,"Custom rule management".toList⟩),
  ("/rules/*".toList,⟨.Free,none,"Custom rule operations".toList⟩),
  ("/queue/stats".toList,⟨.Free,none,"Queue statistics".toList⟩),
  ("/queue/history".toList,⟨.Free,none,"Queue job history".toList⟩),
  ("/queue/results/*".toList,⟨.Free,none,"Retrieve async job results".toList⟩),
  ("/queue/cancel/*".toList,⟨.Free,none,"Cancel queued job".toList⟩),
  ("/notify".toList,⟨.Free,none,"Send notification".toList⟩),
  ("/log".toList,⟨.Free,none,"Client-side log ingestion".toList⟩),
  ("/proxy/fetch".toList,⟨.Anonymous,none,"CORS proxy for single URL (local mode — anonymous + Turnstile)".toList⟩),
  ("/proxy/fetch/batch".toList,⟨.Pro,none,"CORS proxy batch fetch (hybrid mode, Pro+)".toList⟩),
  ("/payg/pricing".toList,⟨.Anonymous,none,"PAYG pricing information (public)".toList⟩),
  ("/payg/session/status".toList,⟨.Anonymous,none,"PAYG session status (session-token auth)".toList⟩),
  ("/payg/session/create".toList,⟨.Free,none,"Create PAYG session (Better Auth required)".toList⟩),
  ("/payg/usage".toList,⟨.Free,none,"PAYG usage summary (Better Auth required — customer ID from session)".toList⟩),
  ("/stripe/*".toList,⟨.Anonymous,none,"Stripe webhook receivers and checkout stubs (self-authenticated)".toList⟩),
  ("/compile/async".toList,⟨.Pro,none,"Async compilation (Pro+)".toList⟩),
  ("/compile/batch/async".toList,⟨.Pro,none,"Async batch compilation (Pro+)".toList⟩),
  ("/workflow/*".toList,⟨.Pro,none,"Workflow execution (Pro+)".toList⟩),
  ("/workflow/diagram".toList,⟨.Pro,none,"Workflow diagram metadata — all workflows (Pro+)".toList⟩),
  ("/workflow/diagram/*".toList,⟨.Pro,none,"Workflow diagram metadata — single workflow by name (Pro+)".toList⟩),
  ("/configuration/defaults".toList,⟨.Anonymous,none,"System defaults and hard limits".toList⟩),
  ("/configuration/validate".toList,⟨.Free,none,"Validate a configuration object".toList⟩),
  ("/configuration/resolve".toList,⟨.Free,none,"Merge config layers and return effective IConfiguration".toList⟩),
  ("/configuration/create".toList,⟨.Anonymous,none,"Create and store a configuration file (Turnstile-gated)".toList⟩),
  ("/configuration/download/*".toList,⟨.Anonymous,none,"Download a previously stored configuration file".toList⟩),
  ("/configuration/saved".toList,⟨.Free,none,"List or save user configurations (Better Auth session required)".toList⟩),
  ("/configuration/saved/*".toList,⟨.Free,none,"Delete a user configuration by ID (Better Auth session required)".toList⟩),
  ("/admin/*".toList,⟨.Admin,some "admin".toList,"Admin operations (catch-all)".toList⟩),
  ("/admin/auth/config".toList,⟨.Admin,some "admin".toList,"Auth configuration inspector".toList⟩),
  ("/admin/users".toList,⟨.Admin,some "admin".toList,"List users".toList⟩),
  ("/admin/users/*".toList,⟨.Admin,some "admin".toList,"User management (update tier/role, ban/unban)".toList⟩),
  ("/admin/usage/*".toList,⟨.Admin,some "admin".toList,"Per-user API usage statistics".toList⟩),
  ("/admin/storage".toList,⟨.Admin,some "admin".toList,"Storage admin panel".toList⟩),
  ("/admin/storage/*".toList,⟨.Admin,some "admin".toList,"Storage admin operations".toList⟩),
  ("/admin/auth/api-keys".toList,⟨.Admin,some "admin".toList,"Admin API key management".toList⟩),
  ("/admin/auth/api-keys/*".toList,⟨.Admin,some "admin".toList,"Admin API key operations".toList⟩),
  ("/admin/neon/project".toList,⟨.Admin,some "admin".toList,"Neon project overview".toList⟩),
  ("/admin/neon/branches".toList,⟨.Admin,some "admin".toList,"List Neon branches".toList⟩),
  ("/admin/neon/branches/*".toList,⟨.Admin,some "admin".toList,"Neon branch operations (get/create/delete)".toList⟩),
  ("/admin/neon/endpoints".toList,⟨.Admin,some "admin".toList,"List Neon compute endpoints".toList⟩),
  ("/admin/neon/databases/*".toList,⟨.Admin,some "admin".toList,"List databases for a Neon branch".toList⟩),
  ("/admin/neon/query".toList,⟨.Admin,some "admin".toList,"Execute SQL via Neon serverless driver".toList⟩),
  ("/admin/agents/sessions".toList,⟨.Admin,some "admin".toList,"List agent sessions".toList⟩),
  ("/admin/agents/sessions/*".toList,⟨.Admin,some "admin".toList,"Agent session detail / termination".toList⟩),
  ("/admin/agents/audit".toList,⟨.Admin,some "admin".toList,"Agent audit log".toList⟩),
  ("/admin/security/overview".toList,⟨.Admin,some "admin".toList,"Security overview dashboard metrics".toList⟩),
  ("/metrics/prometheus".toList,⟨.Admin,some "admin".toList,"Prometheus metrics scrape".toList⟩)] ++ AGENT_ROUTES

def get (registry : Registry) (path : Text) : Option RoutePermission :=
  (registry.find? fun entry => decide (entry.1 = path)).map Prod.snd

-- Where a pattern ends in a wildcard, what stands before it.
def stemOf (pattern : Text) : Option Text :=
  if endsWith pattern "/*".toList then some (pattern.take (pattern.length-2)) else none

def under (routePath stem : Text) : Bool := routePath = stem || startsWith routePath (stem ++ ['/'])

def consider (routePath : Text) (best : Option RoutePermission × Nat) (entry : Text × RoutePermission) : Option RoutePermission × Nat :=
  match stemOf entry.1 with
  | none => best
  | some stem => if stem.length > best.2 && under routePath stem then (some entry.2,stem.length) else best

def resolveRoutePermission (registry : Registry) (routePath : Text) : Option RoutePermission :=
  match get registry routePath with
  | some exact_ => some exact_
  | none => (registry.foldl (consider routePath) (none,0)).1

structure Response where
  status : Nat
  error : Text
  deriving DecidableEq, Repr

def checkRoutePermission (registry : Registry) (routePath : Text) (authContext : AuthContext) : Option Response :=
  match resolveRoutePermission registry routePath with
  | none => if !isTierSufficient authContext.tier .Free then some ⟨401,"Authentication required".toList⟩ else none
  | some permission =>
    if permission.minTier = .Anonymous then none
    else if !isTierSufficient authContext.tier permission.minTier then
      let isAnon := authContext.tier = .Anonymous
      let required := (TIER_REGISTRY permission.minTier).displayName
      let actual := (TIER_REGISTRY authContext.tier).displayName
      some ⟨if isAnon then 401 else 403,if isAnon then "Authentication required".toList
        else "Insufficient tier: requires ".toList ++ required ++ ", current tier is ".toList ++ actual⟩
    else
      match permission.requiredRole with
      | none | some [] => none
      | some requiredRole => if authContext.role ≠ requiredRole then some ⟨403,"Insufficient role".toList⟩ else none

-- A pattern of the registry that ends in a wildcard and applies to the path.
def Wild (routePath stem : Text) (permission : RoutePermission) : Prop :=
  (stem ++ "/*".toList,permission) ∈ ROUTE_PERMISSION_REGISTRY ∧ under routePath stem = true

def Longest (routePath : Text) (permission : RoutePermission) : Prop :=
  ∃ stem, Wild routePath stem permission ∧ ∀ other worse, Wild routePath other worse → other.length ≤ stem.length

theorem stemOf_exact : stemOf pattern = some stem ↔ pattern = stem ++ "/*".toList := by
  have two : "/*".toList.length = 2 := rfl
  unfold stemOf
  generalize "/*".toList = wildcard at *
  constructor
  · intro found
    split at found
    · rename_i ends
      obtain ⟨front,rfl⟩ := List.isSuffixOf_iff_suffix.mp ends
      have stem_ : (front ++ wildcard).take ((front ++ wildcard).length-2) = front := by
        rw [List.length_append,two,Nat.add_sub_cancel]
        exact List.take_left
      rw [stem_] at found
      rw [Option.some.inj found]
    · cases found
  · intro same
    subst same
    have ends : endsWith (stem ++ wildcard) wildcard = true := List.isSuffixOf_iff_suffix.mpr ⟨stem,rfl⟩
    rw [if_pos ends,List.length_append,two,Nat.add_sub_cancel]
    exact congrArg some List.take_left

theorem under_exact : under path stem = true ↔ path = stem ∨ ∃ rest, path = stem ++ '/' :: rest := by
  rw [under,Bool.or_eq_true,decide_eq_true_eq,startsWith_iff]
  simp

theorem under_begins (inside : under path stem = true) : stem <+: path := by
  rcases under_exact.mp inside with rfl | ⟨rest,rfl⟩
  · exact List.prefix_refl path
  · exact List.prefix_append stem _

section Folding
variable (routePath : Text)

-- No pattern that applies is longer than what the loop ends with.
theorem longest_bound (entries : Registry) (best : Option RoutePermission × Nat) :
    best.2 ≤ (entries.foldl (consider routePath) best).2 ∧
    ∀ entry ∈ entries, ∀ stem, stemOf entry.1 = some stem → under routePath stem = true →
      stem.length ≤ (entries.foldl (consider routePath) best).2 := by
  induction entries generalizing best with
  | nil => exact ⟨Nat.le_refl _,nofun⟩
  | cons entry rest ih =>
    obtain ⟨later,others⟩ := ih (consider routePath best entry)
    have grows : best.2 ≤ (consider routePath best entry).2 ∧ ∀ stem, stemOf entry.1 = some stem → under routePath stem = true →
        stem.length ≤ (consider routePath best entry).2 := by
      unfold consider
      split
      · exact ⟨Nat.le_refl _,fun stem found => by simp_all⟩
      · rename_i stem known
        split
        · rename_i taken
          simp only [Bool.and_eq_true,decide_eq_true_eq] at taken
          refine ⟨Nat.le_of_lt taken.1,fun other found _ => ?_⟩
          rw [known] at found
          cases found
          exact Nat.le_refl _
        · rename_i left
          refine ⟨Nat.le_refl _,fun other found inside => ?_⟩
          rw [known] at found
          cases found
          simp only [inside,Bool.and_true,decide_eq_true_eq,Nat.not_lt] at left
          exact left
    refine ⟨grows.1.trans later,?_⟩
    intro other member stem found inside
    rcases List.mem_cons.mp member with rfl | behind
    · exact (grows.2 stem found inside).trans later
    · exact others other behind stem found inside

-- What it ends with is the beginning or a pattern that applies.
theorem longest_found (entries : Registry) (best : Option RoutePermission × Nat) :
    entries.foldl (consider routePath) best = best ∨ ∃ entry ∈ entries, ∃ stem, stemOf entry.1 = some stem ∧
      under routePath stem = true ∧ entries.foldl (consider routePath) best = (some entry.2,stem.length) := by
  induction entries generalizing best with
  | nil => exact .inl rfl
  | cons entry rest ih =>
    rcases ih (consider routePath best entry) with same | ⟨other,member,stem,found,inside,result⟩
    · rw [List.foldl_cons,same]
      unfold consider
      split
      · exact .inl rfl
      · rename_i stem known
        split
        · rename_i taken
          simp only [Bool.and_eq_true,decide_eq_true_eq] at taken
          exact .inr ⟨entry,List.mem_cons_self,stem,known,taken.2,rfl⟩
        · exact .inl rfl
    · exact .inr ⟨other,List.mem_cons_of_mem entry member,stem,found,inside,result⟩

end Folding

def adminOnly (permission : RoutePermission) : Bool :=
  permission.minTier = .Admin && permission.requiredRole = some "admin".toList

-- What is needed of the keys, decided in one evaluation: reading their texts is
-- what takes the kernel long.
theorem registry_checked : (ROUTE_PERMISSION_REGISTRY.map Prod.fst).Nodup ∧ ∀ entry ∈ ROUTE_PERMISSION_REGISTRY,
    stemOf entry.1 ≠ some [] ∧ (startsWith entry.1 "/admin".toList = true → adminOnly entry.2 = true) := by
  decide +kernel

theorem registry_distinct : (ROUTE_PERMISSION_REGISTRY.map Prod.fst).Nodup := registry_checked.1

theorem registry_stems : ∀ entry ∈ ROUTE_PERMISSION_REGISTRY, stemOf entry.1 ≠ some [] :=
  fun entry member => (registry_checked.2 entry member).1

theorem distinct_values {registry : Registry} (distinct : (registry.map Prod.fst).Nodup)
    (one : (path,permission) ∈ registry) (two : (path,other) ∈ registry) : permission = other :=
  congrArg Prod.snd (List.inj_on_of_nodup_map distinct one two rfl)

theorem get_exact {registry : Registry} (distinct : (registry.map Prod.fst).Nodup) :
    get registry path = some permission ↔ (path,permission) ∈ registry := by
  unfold get
  constructor
  · intro found
    obtain ⟨entry,located,rfl⟩ := Option.map_eq_some_iff.mp found
    have key : entry.1 = path := by simpa using List.find?_some located
    exact key ▸ List.mem_of_find?_eq_some located
  · intro member
    cases located : registry.find? fun entry => decide (entry.1 = path) with
    | none => exact absurd (List.find?_eq_none.mp located _ member) (by simp)
    | some entry =>
      have key : entry.1 = path := by simpa using List.find?_some located
      have mine : (path,entry.2) ∈ registry := key ▸ List.mem_of_find?_eq_some located
      exact congrArg some (distinct_values distinct mine member)

theorem wild_unique (one : Wild routePath stem permission) (two : Wild routePath other worse) (same : stem.length = other.length) :
    permission = worse := by
  have stems : stem = other := by
    have first : stem <+: other := List.prefix_of_prefix_length_le (under_begins one.2) (under_begins two.2) (Nat.le_of_eq same)
    exact first.eq_of_length same
  subst stems
  exact distinct_values registry_distinct one.1 two.1

section Resolving
variable {registry : Registry} (same : registry.Perm ROUTE_PERMISSION_REGISTRY)
include same

theorem wild_bound (wild : Wild routePath stem permission) :
    stem.length ≤ (registry.foldl (consider routePath) (none,0)).2 :=
  (longest_bound routePath registry (none,0)).2 _ (same.mem_iff.mpr wild.1) stem (stemOf_exact.mpr rfl) wild.2

theorem fold_some (wild : Wild routePath stem permission) :
    ∃ entry ∈ registry, ∃ other, stemOf entry.1 = some other ∧ under routePath other = true ∧
      registry.foldl (consider routePath) (none,0) = (some entry.2,other.length) := by
  rcases longest_found routePath registry (none,0) with start | found
  · have bound := wild_bound same wild
    rw [start] at bound
    have empty : stem = [] := List.length_eq_zero_iff.mp (Nat.le_zero.mp bound)
    exact absurd (congrArg some empty ▸ stemOf_exact.mpr rfl) (registry_stems _ wild.1)
  · exact found

theorem fold_longest (routePath : Text) (permission : RoutePermission) :
    (registry.foldl (consider routePath) (none,0)).1 = some permission ↔ Longest routePath permission := by
  have ends : ∀ entry ∈ registry, ∀ stem, stemOf entry.1 = some stem → under routePath stem = true →
      registry.foldl (consider routePath) (none,0) = (some entry.2,stem.length) → Wild routePath stem entry.2 ∧
        ∀ other worse, Wild routePath other worse → other.length ≤ stem.length := by
    intro entry member stem known inside result
    have pattern : entry.1 = stem ++ "/*".toList := stemOf_exact.mp known
    refine ⟨⟨same.mem_iff.mp (pattern ▸ member),inside⟩,fun other worse wild => ?_⟩
    have bound := wild_bound same wild
    rwa [result] at bound
  constructor
  · intro chosen
    rcases longest_found routePath registry (none,0) with start | ⟨entry,member,stem,known,inside,result⟩
    · rw [start] at chosen
      cases chosen
    · rw [result] at chosen
      cases chosen
      exact ⟨stem,ends entry member stem known inside result⟩
  · intro longest
    obtain ⟨stem,wild,most⟩ := longest
    obtain ⟨entry,member,other,known,inside,result⟩ := fold_some same wild
    obtain ⟨mine,best⟩ := ends entry member other known inside result
    have equal : other.length = stem.length := Nat.le_antisymm (most other entry.2 mine) (best stem permission wild)
    rw [result]
    exact congrArg some (wild_unique mine wild equal)

theorem resolve_exact (routePath : Text) :
    (∀ permission, (routePath,permission) ∈ ROUTE_PERMISSION_REGISTRY → resolveRoutePermission registry routePath = some permission) ∧
    ((∀ permission, (routePath,permission) ∉ ROUTE_PERMISSION_REGISTRY) → ∀ permission,
      resolveRoutePermission registry routePath = some permission ↔ Longest routePath permission) := by
  have distinct : (registry.map Prod.fst).Nodup := (same.map Prod.fst).nodup_iff.mpr registry_distinct
  constructor
  · intro permission listed
    have exact_ : get registry routePath = some permission := (get_exact distinct).mpr (same.mem_iff.mpr listed)
    rw [resolveRoutePermission,exact_]
  · intro unlisted permission
    have missing : get registry routePath = none := by
      cases found : get registry routePath with
      | none => rfl
      | some other => exact absurd (same.mem_iff.mp ((get_exact distinct).mp found)) (unlisted other)
    rw [resolveRoutePermission,missing]
    exact fold_longest same routePath permission

theorem resolve_listed (found : resolveRoutePermission registry routePath = some permission) :
    (routePath,permission) ∈ ROUTE_PERMISSION_REGISTRY ∨ Longest routePath permission := by
  by_cases listed : ∃ other, (routePath,other) ∈ ROUTE_PERMISSION_REGISTRY
  · obtain ⟨other,member⟩ := listed
    have resolved := (resolve_exact same routePath).1 other member
    rw [found] at resolved
    cases resolved
    exact .inl member
  · exact .inr (((resolve_exact same routePath).2 (not_exists.mp listed) permission).mp found)

end Resolving

section Admin

-- Every entry whose key or stem is /admin or goes on from there.
theorem registry_admin : ∀ entry ∈ ROUTE_PERMISSION_REGISTRY, startsWith entry.1 "/admin".toList = true → adminOnly entry.2 = true :=
  fun entry member => (registry_checked.2 entry member).2

theorem admin_catchAll : ("/admin/*".toList,⟨.Admin,some "admin".toList,"Admin operations (catch-all)".toList⟩) ∈ ROUTE_PERMISSION_REGISTRY :=
  List.mem_of_getElem? (i := 51) rfl

variable {registry : Registry} (same : registry.Perm ROUTE_PERMISSION_REGISTRY)
include same

theorem admin_resolved (inside : under routePath "/admin".toList = true) :
    ∃ permission, resolveRoutePermission registry routePath = some permission ∧ adminOnly permission = true := by
  have begins : "/admin".toList <+: routePath := under_begins inside
  have catchAll : Wild routePath "/admin".toList _ := ⟨admin_catchAll,inside⟩
  cases found : resolveRoutePermission registry routePath with
  | none =>
    rw [resolveRoutePermission] at found
    split at found
    · cases found
    · obtain ⟨entry,-,stem,-,-,result⟩ := fold_some same catchAll
      rw [result] at found
      cases found
  | some permission =>
    refine ⟨permission,rfl,?_⟩
    rcases resolve_listed same found with listed | longest
    · exact registry_admin _ listed (List.isPrefixOf_iff_prefix.mpr begins)
    · obtain ⟨stem,wild,most⟩ := longest
      have stem_ : "/admin".toList <+: stem :=
        List.prefix_of_prefix_length_le begins (under_begins wild.2) (most _ _ catchAll)
      exact registry_admin _ wild.1 (List.isPrefixOf_iff_prefix.mpr (stem_.trans (List.prefix_append _ _)))

theorem admin_denied (inside : under routePath "/admin".toList = true)
    (other : authContext.tier ≠ .Admin ∨ authContext.role ≠ "admin".toList) :
    (checkRoutePermission registry routePath authContext).isSome = true := by
  obtain ⟨permission,found,adminTier⟩ := admin_resolved same inside
  obtain ⟨minTier,requiredRole,description⟩ := permission
  simp only [adminOnly,Bool.and_eq_true,decide_eq_true_eq] at adminTier
  obtain ⟨rfl,rfl⟩ := adminTier
  rw [checkRoutePermission,found]
  dsimp only
  rw [if_neg (by decide)]
  by_cases admin : authContext.tier = .Admin
  · have enough : isTierSufficient authContext.tier .Admin = true := (admin_sufficient _).mpr admin
    have role : authContext.role ≠ "admin".toList := other.resolve_left (not_not.mpr admin)
    rw [enough]
    show (if authContext.role ≠ "admin".toList then some (⟨403,"Insufficient role".toList⟩ : Response) else none).isSome = true
    rw [if_pos role]
    rfl
  · have short : isTierSufficient authContext.tier .Admin = false :=
      Bool.eq_false_iff.mpr fun enough => admin ((admin_sufficient _).mp enough)
    rw [short]
    rfl

end Admin

-- Raising the tier never turns an allowed request into a denied one.
theorem raised_allowed (allowed : checkRoutePermission registry routePath authContext = none)
    (raised : authContext.tier.order ≤ tier.order) :
    checkRoutePermission registry routePath { authContext with tier := tier } = none := by
  unfold checkRoutePermission at allowed ⊢
  cases found : resolveRoutePermission registry routePath with
  | none =>
    rw [found] at allowed
    dsimp only at allowed ⊢
    cases enough : isTierSufficient authContext.tier .Free with
    | false => rw [enough] at allowed; cases allowed
    | true => rw [sufficient_trans enough raised]; rfl
  | some permission =>
    rw [found] at allowed
    dsimp only at allowed ⊢
    by_cases anonymous : permission.minTier = .Anonymous
    · rw [if_pos anonymous]
    · rw [if_neg anonymous] at allowed ⊢
      cases enough : isTierSufficient authContext.tier permission.minTier with
      | false => rw [enough] at allowed; cases allowed
      | true =>
        rw [enough] at allowed
        rw [sufficient_trans enough raised]
        exact allowed

-- The resolver finds the exact entry, or else that of the longest pattern; the
-- admin tree is closed to others; and a higher tier is never denied more.
theorem routes_closed (same : registry.Perm ROUTE_PERMISSION_REGISTRY) (routePath : Text) :
    ((∀ permission, (routePath,permission) ∈ ROUTE_PERMISSION_REGISTRY →
        resolveRoutePermission registry routePath = some permission) ∧
      ((∀ permission, (routePath,permission) ∉ ROUTE_PERMISSION_REGISTRY) → ∀ permission,
        resolveRoutePermission registry routePath = some permission ↔ Longest routePath permission)) ∧
    (under routePath "/admin".toList = true → ∀ authContext : AuthContext,
      authContext.tier ≠ .Admin ∨ authContext.role ≠ "admin".toList →
        (checkRoutePermission registry routePath authContext).isSome = true) ∧
    ∀ (authContext : AuthContext) (tier : UserTier), authContext.tier.order ≤ tier.order →
      checkRoutePermission registry routePath authContext = none →
        checkRoutePermission registry routePath { authContext with tier := tier } = none :=
  ⟨resolve_exact same routePath,fun inside _ => admin_denied same inside,fun _ _ raised allowed => raised_allowed allowed raised⟩

-- With the entries in reverse order, the catch-all comes before what it covers.
theorem reversed_closed : resolveRoutePermission ROUTE_PERMISSION_REGISTRY.reverse "/admin/users/42/ban".toList =
      some ⟨.Admin,some "admin".toList,"User management (update tier/role, ban/unban)".toList⟩ ∧
    (checkRoutePermission ROUTE_PERMISSION_REGISTRY.reverse "/admin/users/42/ban".toList ANONYMOUS_AUTH_CONTEXT).isSome = true := by
  have closed := routes_closed (List.reverse_perm ROUTE_PERMISSION_REGISTRY) "/admin/users/42/ban".toList
  have inside : under "/admin/users/42/ban".toList "/admin".toList = true := by decide
  exact ⟨by decide +kernel,closed.2.1 inside ANONYMOUS_AUTH_CONTEXT (.inl (by decide))⟩

end AdblockCompiler.RoutePermissions
