import AdblockCompiler.RoutePermissions

-- The origins that the CORS middleware answers with, beside the registry of
-- route permissions.
namespace AdblockCompiler.Cors
open JsText AuthContexts RoutePermissions

def PUBLIC_ENDPOINT_PREFIXES : List Text :=
  ["/api/version".toList,"/api/health".toList,"/api/metrics".toList,"/api/browser".toList,"/api/openapi.json".toList,
    "/api/docs".toList,"/api/swagger".toList,"/api/redoc".toList,"/api/turnstile-config".toList,"/api/sentry-config".toList,
    "/api/deployments".toList,"/health".toList,"/metrics".toList,"/turnstile-config".toList,"/sentry-config".toList,
    "/deployments".toList]

def DEFAULT_ALLOWED_ORIGINS : List Text :=
  ["http://localhost:4200".toList,"http://localhost:8787".toList,"http://127.0.0.1:4200".toList,"http://127.0.0.1:8787".toList]

abbrev Env := Option Text

def parseAllowedOrigins (env : Env) : List Text :=
  match env with
  | none => DEFAULT_ALLOWED_ORIGINS
  | some raw =>
    if trim raw = [] then DEFAULT_ALLOWED_ORIGINS
    else ((raw.splitOn ',').map trim).filter fun origin => origin ≠ []

def matchOrigin (origin : Option Text) (env : Env) : Option Text :=
  match origin with
  | none | some [] => none
  | some origin => if origin ∈ parseAllowedOrigins env then some origin else none

def isPublicEndpoint (pathname : Text) : Bool := PUBLIC_ENDPOINT_PREFIXES.any fun first => startsWith pathname first

-- What the middleware answers in Access-Control-Allow-Origin, credentials allowed.
def allowOrigin (origin : Option Text) (pathname : Text) (env : Env) : Option Text :=
  if isPublicEndpoint pathname then some ['*'] else matchOrigin origin env

-- No wildcard for a route path, nor for the same path behind /api.
def Restricted (routePath : Text) : Prop :=
  isPublicEndpoint ("/api".toList ++ routePath) = false ∧ isPublicEndpoint routePath = false ∧
    ∀ origin env, allowOrigin origin ("/api".toList ++ routePath) env = matchOrigin origin env ∧
      allowOrigin origin routePath env = matchOrigin origin env

def openings : List Text :=
  PUBLIC_ENDPOINT_PREFIXES ++ (PUBLIC_ENDPOINT_PREFIXES.filter fun first => startsWith first "/api".toList).map (List.drop 4)

theorem public_opening (wildcard : isPublicEndpoint ("/api".toList ++ routePath) = true ∨ isPublicEndpoint routePath = true) :
    ∃ first ∈ openings, first <+: routePath := by
  rcases wildcard with behind | bare
  · obtain ⟨first,member,starts⟩ := List.any_eq_true.mp behind
    have longer : ∀ first ∈ PUBLIC_ENDPOINT_PREFIXES, "/api".toList.length ≤ first.length := by decide +kernel
    have begins : first <+: "/api".toList ++ routePath := List.isPrefixOf_iff_prefix.mp starts
    have api : "/api".toList <+: first :=
      List.prefix_of_prefix_length_le (List.prefix_append _ routePath) begins (longer first member)
    obtain ⟨rest,rfl⟩ := api
    refine ⟨rest,List.mem_append_right _ (List.mem_map.mpr ⟨_,List.mem_filter.mpr ⟨member,startsWith_append _ rest⟩,rfl⟩),?_⟩
    exact (List.prefix_append_right_inj _).mp begins
  · obtain ⟨first,member,starts⟩ := List.any_eq_true.mp bare
    exact ⟨first,List.mem_append_left _ member,List.isPrefixOf_iff_prefix.mp starts⟩

-- Among the keys that need a tier, one begins like a public path; no stem that
-- needs a tier begins like one or is where one begins.
theorem exposed_checked : ∀ entry ∈ ROUTE_PERMISSION_REGISTRY, entry.2.minTier ≠ .Anonymous → ∀ first ∈ openings,
    (startsWith entry.1 first = true → entry.1 = "/metrics/prometheus".toList) ∧
    ∀ stem ∈ stemOf entry.1, startsWith stem first = false ∧ startsWith first stem = false := by
  decide +kernel

theorem restricted_exact (routePath : Text) : Restricted routePath ↔
    ¬(isPublicEndpoint ("/api".toList ++ routePath) = true ∨ isPublicEndpoint routePath = true) := by
  constructor
  · intro restricted
    rw [restricted.1,restricted.2.1]
    decide
  · intro neither
    obtain ⟨behind,bare⟩ := not_or.mp neither
    refine ⟨Bool.eq_false_iff.mpr behind,Bool.eq_false_iff.mpr bare,?_⟩
    intro origin env
    exact ⟨if_neg behind,if_neg bare⟩

theorem exposed_only (resolved : resolveRoutePermission ROUTE_PERMISSION_REGISTRY routePath = some permission)
    (tiered : permission.minTier ≠ .Anonymous)
    (wildcard : isPublicEndpoint ("/api".toList ++ routePath) = true ∨ isPublicEndpoint routePath = true) :
    routePath = "/metrics/prometheus".toList := by
  obtain ⟨first,opening,begins⟩ := public_opening wildcard
  rcases resolve_listed (List.Perm.refl _) resolved with listed | longest
  · exact (exposed_checked _ listed tiered first opening).1 (List.isPrefixOf_iff_prefix.mpr begins)
  · obtain ⟨stem,wild,-⟩ := longest
    obtain ⟨apart,other⟩ := (exposed_checked _ wild.1 tiered first opening).2 stem (Option.mem_def.mpr (stemOf_exact.mpr rfl))
    rcases List.prefix_or_prefix_of_prefix begins (under_begins wild.2) with inner | outer
    · rw [startsWith,List.isPrefixOf_iff_prefix.mpr inner] at apart
      cases apart
    · rw [startsWith,List.isPrefixOf_iff_prefix.mpr outer] at other
      cases other

theorem prometheus_public : isPublicEndpoint "/metrics/prometheus".toList = true := by
  refine List.any_eq_true.mpr ⟨"/metrics".toList,List.mem_of_getElem? (i := 12) rfl,startsWith_iff.mpr ⟨"/prometheus".toList,?_⟩⟩
  decide

theorem cors_exact (resolved : resolveRoutePermission ROUTE_PERMISSION_REGISTRY routePath = some permission)
    (above : UserTier.order .Anonymous < permission.minTier.order) : Restricted routePath ↔ routePath ≠ "/metrics/prometheus".toList := by
  have tiered : permission.minTier ≠ .Anonymous := by
    intro same
    rw [same] at above
    exact lt_irrefl _ above
  rw [restricted_exact]
  refine not_congr ⟨exposed_only resolved tiered,?_⟩
  intro same
  subst same
  exact .inr prometheus_public

theorem compile_restricted : Restricted "/compile/batch/async".toList := by
  have resolved : resolveRoutePermission ROUTE_PERMISSION_REGISTRY "/compile/batch/async".toList =
      some ⟨.Pro,none,"Async batch compilation (Pro+)".toList⟩ :=
    (resolve_exact (List.Perm.refl _) _).1 _ (List.mem_of_getElem? (i := 40) rfl)
  have above : UserTier.order .Anonymous < UserTier.order .Pro := by norm_num [UserTier.order,TIER_REGISTRY]
  exact (cors_exact resolved above).mpr (by decide)

theorem prometheus_wildcard : ¬∀ routePath permission,
    resolveRoutePermission ROUTE_PERMISSION_REGISTRY routePath = some permission →
      UserTier.order .Anonymous < permission.minTier.order → Restricted routePath := by
  intro always
  have resolved : resolveRoutePermission ROUTE_PERMISSION_REGISTRY "/metrics/prometheus".toList =
      some ⟨.Admin,some "admin".toList,"Prometheus metrics scrape".toList⟩ :=
    (resolve_exact (List.Perm.refl _) _).1 _ (List.mem_of_getElem? (i := 70) rfl)
  have above : UserTier.order .Anonymous < UserTier.order .Admin := by norm_num [UserTier.order,TIER_REGISTRY]
  have hidden := (always _ _ resolved above).2.1
  rw [prometheus_public] at hidden
  cases hidden

end AdblockCompiler.Cors
