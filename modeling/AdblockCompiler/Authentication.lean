import AdblockCompiler.Exceptions
import AdblockCompiler.JsonText

-- Tiers of users and the identity a request is given.
namespace AdblockCompiler.AuthContexts
open JsText

inductive UserTier where
  | Anonymous | Free | Pro | Admin | PayAsYouGo | Vendor | Enterprise
  deriving DecidableEq, Repr

structure TierConfig where
  order : ℚ
  displayName : Text

def TIER_REGISTRY : UserTier → TierConfig
  | .Anonymous => ⟨0,"Anonymous".toList⟩
  | .Free => ⟨1,"Free".toList⟩
  | .Pro => ⟨2,"Pro".toList⟩
  | .Admin => ⟨4,"Admin".toList⟩
  | .PayAsYouGo => ⟨3/2,"Pay As You Go".toList⟩
  | .Vendor => ⟨5/2,"Vendor".toList⟩
  | .Enterprise => ⟨3,"Enterprise".toList⟩

def UserTier.order (tier : UserTier) : ℚ := (TIER_REGISTRY tier).order

def isTierSufficient (actual required : UserTier) : Bool := actual.order ≥ required.order

theorem admin_sufficient (tier : UserTier) : isTierSufficient tier .Admin = true ↔ tier = .Admin := by
  cases tier <;> simp only [isTierSufficient,UserTier.order,TIER_REGISTRY,reduceCtorEq] <;> norm_num

theorem sufficient_trans (enough : isTierSufficient low required = true) (raised : low.order ≤ high.order) :
    isTierSufficient high required = true := by
  simp only [isTierSufficient,decide_eq_true_eq] at enough ⊢
  exact enough.trans raised

inductive AuthMethod where
  | apiKey | anonymous | betterAuth
  deriving DecidableEq, Repr

structure AuthContext where
  userId : Option Text
  tier : UserTier
  role : Text
  apiKeyId : Option Text
  sessionId : Option Text
  scopes : List Text
  authMethod : AuthMethod
  email : Option Text
  displayName : Option Text
  apiKeyRateLimit : Option Int
  deriving DecidableEq, Repr

def ANONYMOUS_AUTH_CONTEXT : AuthContext :=
  { userId := none
    tier := .Anonymous
    role := "anonymous".toList
    apiKeyId := none
    sessionId := none
    scopes := []
    authMethod := .anonymous
    email := none
    displayName := none
    apiKeyRateLimit := none }

end AdblockCompiler.AuthContexts

-- authenticateRequestUnified: API key, then auth provider, then anonymous. Its
-- collaborators work on a state of their own, and each may throw.
namespace AdblockCompiler.Authentication
open JsText JsonText Exceptions AuthContexts

variable {σ : Type}

abbrev Call (σ α : Type) := Computation Thrown σ α

-- Waiting for a promise, by what it settles with.
def await (promise : Except Thrown α) : Call σ α := ExceptT.mk (pure promise)

-- query may throw by itself; the promise it returns gives rows or rejects.
structure PgPool (σ : Type) where
  query : Text → List Text → Call σ (Except Thrown (List Json))

abbrev PgPoolFactory (σ : Type) := Text → Call σ (PgPool σ)

structure SecurityEvent where
  eventType : Text
  authMethod : Text
  userId : Option Text
  reason : Option Text

structure Env (σ : Type) where
  HYPERDRIVE : Option Text
  RATE_LIMIT : Option (Text → Call σ (Option Text))
  ANALYTICS_ENGINE : Option (SecurityEvent → Call σ Unit)

structure Request where
  headers : Text → Option Text

structure Response where
  status : Nat
  body : Json

structure AuthMiddlewareResult where
  context : AuthContext
  response : Option Response

def extractBearerToken (request : Request) : Option Text :=
  match request.headers "Authorization".toList with
  | none | some [] => none
  | some authHeader =>
    match authHeader.splitOn ' ' with
    | [scheme,rest] =>
      if lowerCase scheme ≠ "bearer".toList then none
      else
        let token := trim rest
        if token.length > 0 then some token else none
    | _ => none

def isApiKeyToken (token : Text) : Bool := startsWith token "abc_".toList

section Rows

def field (row : Json) (name : Text) : Option Json :=
  match row with
  | .object fields => (fields.find? fun entry => decide (entry.1 = name)).map Prod.snd
  | _ => none

def asString : Json → Option Text
  | .string text => some text
  | _ => none

-- z.string().optional() and z.string().nullable().optional(): whether the field
-- is accepted, and its text.
def optionalString (row : Json) (name : Text) : Option (Option Text) :=
  match field row name with
  | none => some none
  | some (.string text) => some (some text)
  | _ => none

def nullishString (row : Json) (name : Text) : Option (Option Text) :=
  match field row name with
  | none | some .null => some none
  | some (.string text) => some (some text)
  | _ => none

def VALID_SCOPES : List Text := ["compile".toList,"rules".toList,"admin".toList,"agents".toList]

def scopesOf : Json → Option (List Text)
  | .array items => items.mapM fun item => (asString item).filter fun scope => scope ∈ VALID_SCOPES
  | _ => none

def nonnegativeInt : Json → Option Nat
  | .number value => if value.text.all Char.isDigit then some (Nat.ofDigitChars 10 value.text 0) else none
  | _ => none

structure ApiKeyRow where
  id : Text
  user_id : Option Text
  scopes : List Text
  rate_limit_per_minute : Nat
  expires_at : Option Text
  revoked_at : Option Text

def ApiKeyRowSchema (row : Json) : Option ApiKeyRow := do
  let id ← (field row "id".toList).bind asString
  if id = [] then none
  let user_id ← optionalString row "user_id".toList
  let _ ← optionalString row "key_prefix".toList
  let _ ← optionalString row "name".toList
  let scopes ← (field row "scopes".toList).bind scopesOf
  let rate_limit_per_minute ← (field row "rate_limit_per_minute".toList).bind nonnegativeInt
  let expires_at ← nullishString row "expires_at".toList
  let revoked_at ← nullishString row "revoked_at".toList
  let _ ← nullishString row "last_used_at".toList
  let _ ← optionalString row "created_at".toList
  let _ ← optionalString row "updated_at".toList
  return ⟨id,user_id,scopes,rate_limit_per_minute,expires_at,revoked_at⟩

def tierNamed (name : Text) : Option UserTier :=
  if name = "anonymous".toList then some .Anonymous
  else if name = "free".toList then some .Free
  else if name = "pro".toList then some .Pro
  else if name = "admin".toList then some .Admin
  else if name = "payg".toList then some .PayAsYouGo
  else if name = "vendor".toList then some .Vendor
  else if name = "enterprise".toList then some .Enterprise
  else none

def UserTierRowSchema (row : Json) : Option UserTier := ((field row "tier".toList).bind asString).bind tierNamed

end Rows

section ApiKeys

structure ApiKeyAuthResult where
  authenticated : Bool
  userId : Option Text
  apiKeyId : Option Text
  scopes : Option (List Text)
  rateLimitPerMinute : Option Int
  error : Option Text

def ApiKeyAuthResult.refused (error : Text) : ApiKeyAuthResult := ⟨false,none,none,none,none,some error⟩

-- SHA-256 in hexadecimal, the instant a text names, and the present one.
structure Platform where
  hashToken : Text → Text
  dateOf : Text → Option Int
  now : Int

variable (platform : Platform)

def expired (expires_at : Option Text) : Bool :=
  match expires_at with
  | none | some [] => false
  | some text =>
    match platform.dateOf text with
    | none => false
    | some instant => instant < platform.now

def selectKey : Text :=
  "SELECT id, user_id, scopes, rate_limit_per_minute, expires_at, revoked_at FROM api_keys WHERE key_hash = $1".toList

def updateLastUsed : Text := "UPDATE api_keys SET last_used_at = NOW() WHERE id = $1".toList

-- The update of last_used_at is not waited for.
def lookUp (pool : PgPool σ) (keyHash : Text) (requiredScope : Option Text) : Call σ ApiKeyAuthResult := do
  let rows ← await (← pool.query selectKey [keyHash])
  match rows with
  | [] => return .refused "Invalid API key".toList
  | row :: _ =>
    match ApiKeyRowSchema row with
    | none => return .refused "Malformed API key data".toList
    | some apiKey =>
      if apiKey.revoked_at.getD [] ≠ [] then return .refused "API key has been revoked".toList
      else if expired platform apiKey.expires_at then return .refused "API key has expired".toList
      else if requiredScope.any fun scope => scope ∉ apiKey.scopes then
        return .refused ("API key missing required scope: ".toList ++ requiredScope.getD [])
      else
        let _ ← pool.query updateLastUsed [apiKey.id]
        return ⟨true,apiKey.user_id,some apiKey.id,some apiKey.scopes,some apiKey.rate_limit_per_minute,none⟩

def authenticateApiKey (request : Request) (connectionString : Text) (createPool : PgPoolFactory σ)
    (requiredScope : Option Text) : Call σ ApiKeyAuthResult :=
  match extractBearerToken request with
  | none => pure (.refused "Missing or invalid Authorization header. Use: Bearer <api-key>".toList)
  | some token => do
    let keyHash := platform.hashToken token
    let pool ← createPool connectionString
    tryCatch (lookUp platform pool keyHash requiredScope) fun error =>
      pure (.refused ("Authentication service error: ".toList ++ error))

def selectTier : Text := "SELECT tier FROM users WHERE id = $1 LIMIT 1".toList

def resolveApiKeyOwnerTier (userId : Option Text) (connectionString : Text) (createPool : PgPoolFactory σ) : Call σ UserTier :=
  match userId with
  | none | some [] => pure .Free
  | some userId =>
    tryCatch (do
      let pool ← createPool connectionString
      let rows ← await (← pool.query selectTier [userId])
      match rows with
      | [] => return .Free
      | row :: _ => return (UserTierRowSchema row).getD .Free) fun _ => pure .Free

end ApiKeys

section Validators

structure TokenValidationResult where
  valid : Bool
  error : Option Text

structure TokenValidator (σ : Type) where
  name : Text
  validate : Text → AuthContext → Env σ → Call σ TokenValidationResult

def SessionRevocationValidator : TokenValidator σ :=
  { name := "session-revocation".toList
    validate := fun _ authContext env =>
      match authContext.sessionId,env.RATE_LIMIT with
      | none,_ | some [],_ | _,none => pure ⟨true,none⟩
      | some sessionId,some get => do
        let revoked ← get ("revoked:sid:".toList ++ sessionId)
        if revoked.isSome then return ⟨false,some "Token has been revoked".toList⟩
        return ⟨true,none⟩ }

-- A tier of the context is one of the enumeration by its type.
def ClaimsIntegrityValidator : TokenValidator σ :=
  { name := "claims-integrity".toList
    validate := fun _ authContext _ =>
      if authContext.authMethod = .anonymous then pure ⟨true,none⟩
      else if authContext.userId.getD [] = [] then
        pure ⟨false,some "Token claims integrity check failed: missing providerUserId".toList⟩
      else if authContext.role = [] then pure ⟨false,some "Token claims integrity check failed: missing role".toList⟩
      else pure ⟨true,none⟩ }

def TOKEN_VALIDATOR_REGISTRY : List (TokenValidator σ) := [SessionRevocationValidator,ClaimsIntegrityValidator]

-- One turn of the loop: the result it returns early with, if any.
def turn (token : Text) (authContext : AuthContext) (env : Env σ) (validator : TokenValidator σ) : Call σ (Option TokenValidationResult) :=
  tryCatch (do
    let result ← validator.validate token authContext env
    return if result.valid then none else some result) fun _ => pure (some ⟨false,some "Token validation failed".toList⟩)

def runTokenValidators (token : Text) (authContext : AuthContext) (env : Env σ) : List (TokenValidator σ) → Call σ TokenValidationResult
  | [] => pure ⟨true,none⟩
  | validator :: rest => do
    match ← turn token authContext env validator with
    | some result => return result
    | none => runTokenValidators token authContext env rest

end Validators

structure AuthProviderResult where
  valid : Bool
  providerUserId : Option Text
  tier : Option UserTier
  role : Option Text
  sessionId : Option Text
  error : Option Text
  email : Option Text
  displayName : Option Text

structure AuthProvider (σ : Type) where
  authMethod : AuthMethod
  verifyToken : Request → Call σ AuthProviderResult

def AuthMethod.name : AuthMethod → Text
  | .apiKey => "api-key".toList
  | .anonymous => "anonymous".toList
  | .betterAuth => "better-auth".toList

-- trackSecurityEvent, which lets nothing out of the dataset.
def track (env : Env σ) (event : SecurityEvent) : Call σ Unit :=
  match env.ANALYTICS_ENGINE with
  | none => pure ()
  | some writeDataPoint => tryCatch (writeDataPoint event) fun _ => pure ()

def anonymous (response : Option Response) : AuthMiddlewareResult := ⟨ANONYMOUS_AUTH_CONTEXT,response⟩

def errorBody (error : Text) : Json := .object [("error".toList,.string error)]
def failureBody (error : Text) : Json := .object [("success".toList,.bool false),("error".toList,.string error)]

def keyContext (result : ApiKeyAuthResult) (ownerTier : UserTier) : AuthContext :=
  { userId := result.userId
    tier := ownerTier
    role := "user".toList
    apiKeyId := result.apiKeyId
    sessionId := none
    scopes := result.scopes.getD []
    authMethod := .apiKey
    email := none
    displayName := none
    apiKeyRateLimit := result.rateLimitPerMinute }

def providerContext (method : AuthMethod) (result : AuthProviderResult) : AuthContext :=
  { userId := result.providerUserId
    tier := result.tier.getD .Free
    role := result.role.getD "user".toList
    apiKeyId := none
    sessionId := result.sessionId
    scopes := []
    authMethod := method
    email := result.email
    displayName := result.displayName
    apiKeyRateLimit := none }

section Unified
variable (platform : Platform) (validators : List (TokenValidator σ)) (request : Request) (env : Env σ)

def byApiKey (connectionString : Text) (createPool : PgPoolFactory σ) : Call σ AuthMiddlewareResult := do
  let result ← authenticateApiKey platform request connectionString createPool none
  if result.authenticated then
    let ownerTier ← resolveApiKeyOwnerTier result.userId connectionString createPool
    track env ⟨"auth_success".toList,"api-key".toList,result.userId,none⟩
    return ⟨keyContext result ownerTier,none⟩
  else
    let error := result.error.getD "Invalid API key".toList
    track env ⟨"auth_failure".toList,"api-key".toList,none,some error⟩
    return anonymous (some ⟨401,errorBody error⟩)

def byProvider (token : Option Text) (authProvider : AuthProvider σ) : Call σ AuthMiddlewareResult := do
  let providerResult ← authProvider.verifyToken request
  if providerResult.valid && providerResult.providerUserId.getD [] ≠ [] then
    let context := providerContext authProvider.authMethod providerResult
    let validationResult ← runTokenValidators (token.getD []) context env validators
    if !validationResult.valid then
      return anonymous (some ⟨401,failureBody (validationResult.error.getD "Token validation failed".toList)⟩)
    track env ⟨"auth_success".toList,AuthMethod.name authProvider.authMethod,providerResult.providerUserId,none⟩
    return ⟨context,none⟩
  else if token.isSome && providerResult.error.getD [] ≠ [] then
    return anonymous (some ⟨401,failureBody "Authentication failed".toList⟩)
  else return anonymous none

def authenticateRequestUnified (createPool : Option (PgPoolFactory σ)) (authProvider : Option (AuthProvider σ)) :
    Call σ AuthMiddlewareResult :=
  let token := extractBearerToken request
  if token.any isApiKeyToken then
    match env.HYPERDRIVE,createPool with
    | some connectionString,some createPool => byApiKey platform request env connectionString createPool
    | _,_ => pure (anonymous (some ⟨503,errorBody "API key authentication is not configured".toList⟩))
  else
    match authProvider,token with
    | some authProvider,token => byProvider validators request env token authProvider
    | none,none => pure (anonymous none)
    | none,some _ =>
      pure (anonymous (some ⟨401,failureBody "Unrecognised credential format — expected an abc_-prefixed API key".toList⟩))

end Unified
section Claims
variable (platform : Platform) (validators : List (TokenValidator σ)) (request : Request) (env : Env σ)
variable (createPool : Option (PgPoolFactory σ)) (authProvider : Option (AuthProvider σ))

-- Every validator in turn says valid.
def Passed (token : Text) (context : AuthContext) (env : Env σ) : List (TokenValidator σ) → σ → Prop
  | [],_ => True
  | validator :: rest,s => ∃ result t, (validator.validate token context env).from s = (.ok result,t) ∧
      result.valid = true ∧ Passed token context env rest t

def ByKey (s : σ) : Prop :=
  ∃ connectionString pool result t, (extractBearerToken request).any isApiKeyToken = true ∧
    env.HYPERDRIVE = some connectionString ∧ createPool = some pool ∧
    (authenticateApiKey platform request connectionString pool none).from s = (.ok result,t) ∧ result.authenticated = true

def ByProvider (s : σ) (context : AuthContext) : Prop :=
  ∃ (provider : AuthProvider σ) (result : AuthProviderResult) (t : σ), authProvider = some provider ∧
    (provider.verifyToken request).from s = (.ok result,t) ∧ result.valid = true ∧ result.providerUserId.getD [] ≠ [] ∧
    context = providerContext provider.authMethod result ∧
    Passed ((extractBearerToken request).getD []) context env validators t

-- A response comes with the anonymous context, and any other context from the
-- key lookup or from the provider and all validators.
structure Honest (s : σ) (result : AuthMiddlewareResult) : Prop where
  closed : result.response.isSome = true → result.context = ANONYMOUS_AUTH_CONTEXT
  known : result.context ≠ ANONYMOUS_AUTH_CONTEXT → ByKey platform request env createPool s ∨
    ByProvider validators request env authProvider s result.context

def Fulfils (s : σ) : Prop :=
  ∃ result t, (authenticateRequestUnified platform validators request env createPool authProvider).from s = (.ok result,t) ∧
    Honest platform validators request env createPool authProvider s result

-- The pool factory does not throw when the key is looked up, and the provider
-- does not when it is asked.
def Reached (s : σ) : Prop :=
  ((extractBearerToken request).any isApiKeyToken = true → ∀ connectionString pool, env.HYPERDRIVE = some connectionString →
    createPool = some pool → Answers (pool connectionString) s) ∧
  ((extractBearerToken request).any isApiKeyToken = false → ∀ provider : AuthProvider σ, authProvider = some provider →
    Answers (provider.verifyToken request) s)

theorem honest_anonymous (response : Option Response) (s : σ) :
    Honest platform validators request env createPool authProvider s (anonymous response) :=
  ⟨fun _ => rfl,fun other => absurd rfl other⟩

theorem track_answers (event : SecurityEvent) (s : σ) : Answers (track env event) s := by
  unfold track
  split
  · exact answers_pure () s
  · exact answers_catch (fun _ t => answers_pure () t) s

theorem validators_answer (token : Text) (context : AuthContext) (s : σ) :
    Answers (runTokenValidators token context env validators) s := by
  induction validators generalizing s with
  | nil => exact answers_pure _ s
  | cons validator rest ih =>
    have tried : Answers (turn token context env validator) s := answers_catch (fun _ t => answers_pure _ t) s
    obtain ⟨failure,t,settled⟩ := tried
    refine answers_bind settled ?_
    cases failure with
    | none => exact ih t
    | some result => exact answers_pure result t

theorem turn_passed {token : Text} {context : AuthContext} {validator : TokenValidator σ}
    (tried : (turn token context env validator).from s = (.ok none,t)) :
    ∃ result, (validator.validate token context env).from s = (.ok result,t) ∧ result.valid = true := by
  rcases catch_settled.mp tried with fine | ⟨error,middle,-,rescued⟩
  · obtain ⟨result,middle,validated,after⟩ := bind_settled.mp fine
    obtain ⟨same,rfl⟩ := pure_settled.mp after
    refine ⟨result,validated,?_⟩
    cases valid : result.valid with
    | true => rfl
    | false => rw [valid] at same; cases same
  · cases (pure_settled.mp rescued).1

theorem turn_failed {token : Text} {context : AuthContext} {validator : TokenValidator σ}
    (tried : (turn token context env validator).from s = (.ok (some result),t)) : result.valid = false := by
  rcases catch_settled.mp tried with fine | ⟨error,middle,-,rescued⟩
  · obtain ⟨other,middle,-,after⟩ := bind_settled.mp fine
    have same := (pure_settled.mp after).1
    cases valid : other.valid with
    | true => rw [valid] at same; cases same
    | false =>
      rw [valid] at same
      cases same
      exact valid
  · cases (pure_settled.mp rescued).1
    rfl

theorem validators_passed {token : Text} {context : AuthContext}
    (ran : (runTokenValidators token context env validators).from s = (.ok result,t)) (valid : result.valid = true) :
    Passed token context env validators s := by
  induction validators generalizing s with
  | nil => trivial
  | cons validator rest ih =>
    obtain ⟨failure,middle,tried,after⟩ := bind_settled.mp ran
    cases failure with
    | none =>
      obtain ⟨one,validated,fine⟩ := turn_passed env tried
      exact ⟨one,middle,validated,fine,ih after⟩
    | some other =>
      obtain ⟨rfl,-⟩ := pure_settled.mp after
      rw [turn_failed env tried] at valid
      cases valid

theorem lookUp_answers (token : Text) (found : extractBearerToken request = some token) (connectionString : Text)
    (pool : PgPoolFactory σ) (s : σ) :
    Answers (authenticateApiKey platform request connectionString pool none) s ↔ Answers (pool connectionString) s := by
  unfold authenticateApiKey
  rw [found]
  constructor
  · exact answers_first
  · intro made
    obtain ⟨value,t,settled⟩ := made
    exact answers_bind settled (answers_catch (fun _ u => answers_pure _ u) t)

theorem tier_answers (userId : Option Text) (connectionString : Text) (pool : PgPoolFactory σ) (s : σ) :
    Answers (resolveApiKeyOwnerTier userId connectionString pool) s := by
  unfold resolveApiKeyOwnerTier
  split
  · exact answers_pure _ s
  · exact answers_pure _ s
  · exact answers_catch (fun _ u => answers_pure _ u) s

theorem byApiKey_answers (token : Text) (found : extractBearerToken request = some token) (connectionString : Text)
    (pool : PgPoolFactory σ) (s : σ) :
    Answers (byApiKey platform request env connectionString pool) s ↔ Answers (pool connectionString) s := by
  rw [← lookUp_answers platform request token found]
  constructor
  · exact answers_first
  · intro looked
    obtain ⟨result,t,settled⟩ := looked
    refine answers_bind settled ?_
    cases authenticated : result.authenticated with
    | true =>
      obtain ⟨tier,u,tiered⟩ := tier_answers result.userId connectionString pool t
      obtain ⟨_,v,tracked⟩ := track_answers env ⟨"auth_success".toList,"api-key".toList,result.userId,none⟩ u
      exact answers_bind tiered (answers_bind tracked (answers_pure _ v))
    | false =>
      obtain ⟨_,u,tracked⟩ := track_answers env
        ⟨"auth_failure".toList,"api-key".toList,none,some (result.error.getD "Invalid API key".toList)⟩ t
      exact answers_bind tracked (answers_pure _ u)

theorem byProvider_answers (token : Option Text) (provider : AuthProvider σ) (s : σ) :
    Answers (byProvider validators request env token provider) s ↔ Answers (provider.verifyToken request) s := by
  constructor
  · exact answers_first
  · intro verified
    obtain ⟨result,t,settled⟩ := verified
    refine answers_bind settled ?_
    split
    · obtain ⟨validation,u,ran⟩ := validators_answer validators env (token.getD []) (providerContext provider.authMethod result) t
      refine answers_bind ran ?_
      split
      · exact answers_pure _ u
      · obtain ⟨_,v,tracked⟩ := track_answers env
          ⟨"auth_success".toList,AuthMethod.name provider.authMethod,result.providerUserId,none⟩ u
        exact answers_bind tracked (answers_pure _ v)
    · split
      · exact answers_pure _ t
      · exact answers_pure _ t

theorem unified_answers (s : σ) : Answers (authenticateRequestUnified platform validators request env createPool authProvider) s ↔
    Reached request env createPool authProvider s := by
  unfold authenticateRequestUnified Reached
  dsimp only
  cases key : (extractBearerToken request).any isApiKeyToken with
  | true =>
    obtain ⟨token,found,-⟩ := (Option.any_eq_true _ _).mp key
    rw [if_pos rfl]
    cases hyperdrive : env.HYPERDRIVE with
    | none => exact iff_of_true (answers_pure _ s) ⟨nofun,nofun⟩
    | some connectionString =>
      cases pooled : createPool with
      | none => exact iff_of_true (answers_pure _ s) ⟨nofun,nofun⟩
      | some pool =>
        dsimp only
        rw [byApiKey_answers platform request env token found]
        constructor
        · intro made
          refine ⟨?_,nofun⟩
          intro _ _ _ same also
          cases same
          cases also
          exact made
        · intro reached
          exact reached.1 rfl connectionString pool rfl rfl
  | false =>
    rw [if_neg Bool.false_ne_true]
    cases provided : authProvider with
    | none =>
      refine iff_of_true ?_ ⟨nofun,nofun⟩
      cases extractBearerToken request with
      | none => exact answers_pure _ s
      | some token => exact answers_pure _ s
    | some provider =>
      dsimp only
      rw [byProvider_answers]
      constructor
      · intro verified
        refine ⟨nofun,?_⟩
        intro _ _ same
        cases same
        exact verified
      · intro reached
        exact reached.2 rfl provider rfl

theorem byApiKey_honest (key : (extractBearerToken request).any isApiKeyToken = true) (hyperdrive : env.HYPERDRIVE = some connectionString)
    (pooled : createPool = some pool) (settled : (byApiKey platform request env connectionString pool).from s = (.ok result,t)) :
    Honest platform validators request env createPool authProvider s result := by
  obtain ⟨found,u,looked,after⟩ := bind_settled.mp settled
  cases authenticated : found.authenticated with
  | true =>
    rw [authenticated,if_pos rfl] at after
    obtain ⟨tier,v,-,after⟩ := bind_settled.mp after
    obtain ⟨_,w,-,after⟩ := bind_settled.mp after
    obtain ⟨rfl,-⟩ := pure_settled.mp after
    exact ⟨nofun,fun _ => .inl ⟨connectionString,pool,found,u,key,hyperdrive,pooled,looked,authenticated⟩⟩
  | false =>
    rw [authenticated,if_neg Bool.false_ne_true] at after
    obtain ⟨_,w,-,after⟩ := bind_settled.mp after
    obtain ⟨rfl,-⟩ := pure_settled.mp after
    exact honest_anonymous platform validators request env createPool authProvider _ s

theorem byProvider_honest (provided : authProvider = some provider)
    (settled : (byProvider validators request env (extractBearerToken request) provider).from s = (.ok result,t)) :
    Honest platform validators request env createPool authProvider s result := by
  obtain ⟨verified,u,asked,after⟩ := bind_settled.mp settled
  split at after
  · rename_i accepted
    obtain ⟨valid,named⟩ := Bool.and_eq_true_iff.mp accepted
    obtain ⟨validation,v,ran,after⟩ := bind_settled.mp after
    cases passed : validation.valid with
    | true =>
      rw [passed,Bool.not_true,if_neg Bool.false_ne_true] at after
      obtain ⟨_,w,-,after⟩ := bind_settled.mp after
      obtain ⟨rfl,-⟩ := pure_settled.mp after
      refine ⟨nofun,fun _ => .inr ⟨provider,verified,u,provided,asked,valid,of_decide_eq_true named,rfl,?_⟩⟩
      exact validators_passed validators env ran passed
    | false =>
      rw [passed,Bool.not_false,if_pos rfl] at after
      obtain ⟨rfl,-⟩ := pure_settled.mp after
      exact honest_anonymous platform validators request env createPool authProvider _ s
  · split at after
    · obtain ⟨rfl,-⟩ := pure_settled.mp after
      exact honest_anonymous platform validators request env createPool authProvider _ s
    · obtain ⟨rfl,-⟩ := pure_settled.mp after
      exact honest_anonymous platform validators request env createPool authProvider _ s

theorem unified_honest (settled : (authenticateRequestUnified platform validators request env createPool authProvider).from s = (.ok result,t)) :
    Honest platform validators request env createPool authProvider s result := by
  unfold authenticateRequestUnified at settled
  dsimp only at settled
  cases key : (extractBearerToken request).any isApiKeyToken with
  | true =>
    rw [key,if_pos rfl] at settled
    split at settled
    · rename_i connectionString pool hyperdrive
      exact byApiKey_honest platform validators request env _ authProvider key hyperdrive rfl settled
    · obtain ⟨rfl,-⟩ := pure_settled.mp settled
      exact honest_anonymous platform validators request env _ authProvider _ s
  | false =>
    rw [key,if_neg Bool.false_ne_true] at settled
    split at settled
    · exact byProvider_honest platform validators request env createPool _ rfl settled
    · obtain ⟨rfl,-⟩ := pure_settled.mp settled
      exact honest_anonymous platform validators request env createPool _ _ s
    · obtain ⟨rfl,-⟩ := pure_settled.mp settled
      exact honest_anonymous platform validators request env createPool _ _ s

theorem authentication_exact (s : σ) : Fulfils platform validators request env createPool authProvider s ↔
    Reached request env createPool authProvider s := by
  rw [← unified_answers platform validators request env createPool authProvider s]
  constructor
  · intro fulfils
    obtain ⟨result,t,settled,-⟩ := fulfils
    exact ⟨result,t,settled⟩
  · intro answers
    obtain ⟨result,t,settled⟩ := answers
    exact ⟨result,t,settled,unified_honest platform validators request env createPool authProvider settled⟩

end Claims
-- A factory that cannot make a pool, a provider whose session store is down,
-- and the two requests that meet them.
def brokenPool : PgPoolFactory Unit := fun _ => throw "connection string is invalid".toList

def brokenProvider : AuthProvider Unit := ⟨.betterAuth,fun _ => throw "session store is unavailable".toList⟩

def withKey : Request := ⟨fun name => if name = "Authorization".toList then some "Bearer abc_0123456789".toList else none⟩

def withCookie : Request := ⟨fun _ => none⟩

def worker : Env Unit := ⟨some "postgres://localhost/adblock".toList,none,none⟩

-- SHA-256 of the one token that is hashed here.
def platformOf : Platform := ⟨fun _ => "b3b4cb466b008d9b8a6e880d068edda159f14120eb1c80fa9302ddc5571f9052".toList,fun _ => none,0⟩

theorem authentication_throws : ¬Fulfils platformOf TOKEN_VALIDATOR_REGISTRY withKey worker (some brokenPool) none () ∧
    ¬Fulfils platformOf TOKEN_VALIDATOR_REGISTRY withCookie worker none (some brokenProvider) () := by
  constructor
  · intro fulfils
    obtain ⟨result,t,settled,-⟩ := fulfils
    cases settled
  · intro fulfils
    obtain ⟨result,t,settled,-⟩ := fulfils
    cases settled

end AdblockCompiler.Authentication
