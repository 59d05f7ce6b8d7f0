import AdblockCompiler.JsonText

-- The two key functions of the compilation cache: getCacheKey of the queue
-- handlers, and the one that each workflow has its own copy of.
namespace AdblockCompiler.CacheKeys
open JsText JsonText

-- stableStringify of the queue handlers: like JSON.stringify, with the keys of
-- every object sorted.
mutual
def stableStringify : Json → Text
  | .null => "null".toList
  | .bool truth => stringify (.bool truth)
  | .number value => stringify (.number value)
  | .string text => stringify (.string text)
  | .array items => '[' :: (join (stableItems items) ++ [']'])
  | .object fields =>
    '{' :: (join ((sortByName (stableFields fields)).map fun part => quote part.1 ++ ':' :: part.2) ++ ['}'])
termination_by structural value => value
def stableItems : List Json → List Text
  | [] => []
  | item :: rest => stableStringify item :: stableItems rest
termination_by structural items => items
def stableFields : List (Text × Json) → List (Text × Text)
  | [] => []
  | field :: rest => stableField field :: stableFields rest
termination_by structural fields => fields
def stableField : Text × Json → Text × Text
  | (key,value) => (key,stableStringify value)
termination_by structural field => field
end

theorem stableItems_map (items : List Json) : stableItems items = items.map stableStringify := by
  induction items with
  | nil => rfl
  | cons item rest ih => exact congrArg (stableStringify item :: ·) ih

theorem stableFields_map (fields : List (Text × Json)) : stableFields fields = fields.map stableField := by
  induction fields with
  | nil => rfl
  | cons field rest ih => exact congrArg (stableField field :: ·) ih

theorem stableField_name : Prod.fst ∘ stableField = Prod.fst := by
  funext field
  cases field
  rfl

theorem stable_reordered (reordered : Reordered one two) : stableStringify one = stableStringify two := by
  induction reordered with
  | refl value => rfl
  | trans first second ihFirst ihSecond => exact ihFirst.trans ihSecond
  | @keys fields others perm distinct =>
    have names : ((stableFields fields).map Prod.fst).Nodup := by
      rw [stableFields_map,List.map_map,stableField_name]
      exact distinct
    have parts : (stableFields fields).Perm (stableFields others) := by
      rw [stableFields_map,stableFields_map]
      exact perm.map stableField
    rw [stableStringify,stableStringify,sortByName_perm parts names]
  | item before after inner ih => simp only [stableStringify,stableItems_map,List.map_append,List.map_cons,ih]
  | field before after key inner ih =>
    simp only [stableStringify,stableFields_map,List.map_append,List.map_cons,stableField,ih]

theorem stable_canonical (value : Json) : stableStringify value = stringify (canonical value) := by
  induction value using Json.induct with
  | null => rfl
  | bool truth => rfl
  | number value => rfl
  | string text => rfl
  | array items ih =>
    rw [stableStringify,canonical,stringify,stableItems_map,canonicalItems_map,stringifyItems_map,List.map_map]
    rw [List.map_congr_left ih]
    rfl
  | object fields ih =>
    have printed : stableFields fields = (canonicalFields fields).map (Prod.map id stringify) := by
      rw [stableFields_map,canonicalFields_map,List.map_map]
      apply List.map_congr_left
      rintro ⟨key,value⟩ member
      exact congrArg (key,·) (ih (key,value) member)
    have parts : (fun part => quote part.1 ++ ':' :: part.2) ∘ Prod.map id stringify = stringifyField := by
      funext field
      cases field
      rfl
    rw [stableStringify,canonical,stringify,stringifyFields_map,printed,sortByName_map,List.map_map,parts]

theorem stable_exact (one two : {value // Distinct value}) :
    stableStringify one.1 = stableStringify two.1 ↔ Reordered one.1 two.1 := by
  constructor
  · intro same
    rw [stable_canonical,stable_canonical] at same
    have left := canonical_reordered one.2
    rw [stringify_injective same] at left
    exact left.trans (canonical_reordered two.2).symm
  · exact stable_reordered

structure Digest where
  bytes : List Nat
  size : bytes.length = 32
  byte : ∀ b ∈ bytes, b < 256

-- b.toString(16).padStart(2, '0')
def hexByte (b : Nat) : Text := [hexDigit (b/16),hexDigit (b%16)]

def cacheSpace : Text := ['c','a','c','h','e',':']

def getCacheKey (sha256 : Text → Digest) (config : Json) : Text :=
  cacheSpace ++ ((sha256 (stableStringify config)).bytes.flatMap hexByte).take 32

theorem getCacheKey_reordered (sha256 : Text → Digest) (reordered : Reordered one two) :
    getCacheKey sha256 one = getCacheKey sha256 two := by
  rw [getCacheKey,getCacheKey,stable_reordered reordered]

def Digest.kept (digest : Digest) : List Nat := digest.bytes.take 16

theorem hexByte_injective : ∀ b < 256, ∀ c < 256, hexByte b = hexByte c → b = c := by
  intro b small c small' same
  obtain ⟨high,low⟩ := List.cons.inj same
  have one := hexDigit_value (b/16) (by omega)
  have two := hexDigit_value (b%16) (by omega)
  rw [high,hexDigit_value (c/16) (by omega)] at one
  rw [(List.cons.inj low).1,hexDigit_value (c%16) (by omega)] at two
  omega

theorem hexBytes_take (bytes : List Nat) (n : Nat) : (bytes.flatMap hexByte).take (2*n) = (bytes.take n).flatMap hexByte := by
  induction n generalizing bytes with
  | zero => rfl
  | succ n ih =>
    cases bytes with
    | nil => rfl
    | cons b bytes => exact congrArg (hexByte b ++ ·) (ih bytes)

theorem hexBytes_injective (one two : List Nat) (bytes : ∀ b ∈ one, b < 256) (bytes' : ∀ b ∈ two, b < 256)
    (same : one.flatMap hexByte = two.flatMap hexByte) : one = two := by
  induction one generalizing two with
  | nil =>
    cases two with
    | nil => rfl
    | cons c two => cases same
  | cons b one ih =>
    cases two with
    | nil => cases same
    | cons c two =>
      obtain ⟨first,rest⟩ := List.append_inj same rfl
      obtain ⟨small,others⟩ := List.forall_mem_cons.mp bytes
      obtain ⟨small',others'⟩ := List.forall_mem_cons.mp bytes'
      rw [hexByte_injective b small c small' first,ih two others others' rest]

theorem getCacheKey_digest (sha256 : Text → Digest) (one two : Json) :
    getCacheKey sha256 one = getCacheKey sha256 two ↔
      (sha256 (stableStringify one)).kept = (sha256 (stableStringify two)).kept := by
  have taken (digest : Digest) : (digest.bytes.flatMap hexByte).take 32 = digest.kept.flatMap hexByte :=
    hexBytes_take digest.bytes 16
  rw [getCacheKey,getCacheKey,taken,taken]
  constructor
  · intro same
    have inside (digest : Digest) : ∀ b ∈ digest.kept, b < 256 := fun b kept => digest.byte b (List.mem_of_mem_take kept)
    exact hexBytes_injective _ _ (inside _) (inside _) (List.append_cancel_left same)
  · intro same
    rw [same]

-- Keys agree on the same content, and otherwise only where the kept halves of
-- two digests collide.
theorem content_keyed (sha256 : Text → Digest) (one two : {value // Distinct value}) :
    (stableStringify one.1 = stableStringify two.1 ↔ Reordered one.1 two.1) ∧
    (getCacheKey sha256 one.1 = getCacheKey sha256 two.1 ↔ Reordered one.1 two.1 ∨
      stableStringify one.1 ≠ stableStringify two.1 ∧
        (sha256 (stableStringify one.1)).kept = (sha256 (stableStringify two.1)).kept) := by
  refine ⟨stable_exact one two,?_⟩
  rw [getCacheKey_digest,← stable_exact]
  constructor
  · intro kept
    by_cases same : stableStringify one.1 = stableStringify two.1
    · exact Or.inl same
    · exact Or.inr ⟨same,kept⟩
  · rintro (same | ⟨_,kept⟩)
    · rw [same]
    · exact kept

-- The key list that is given to JSON.stringify holds at every depth: an object
-- keeps the listed fields only, in the order of the list.
mutual
def pick (keys : List Text) : Json → Json
  | .null => .null
  | .bool truth => .bool truth
  | .number value => .number value
  | .string text => .string text
  | .array items => .array (pickItems keys items)
  | .object fields => .object (keys.filterMap fun key => (pickFields keys fields).find? fun field => field.1 = key)
termination_by structural value => value
def pickItems (keys : List Text) : List Json → List Json
  | [] => []
  | item :: rest => pick keys item :: pickItems keys rest
termination_by structural items => items
def pickFields (keys : List Text) : List (Text × Json) → List (Text × Json)
  | [] => []
  | field :: rest => pickField keys field :: pickFields keys rest
termination_by structural fields => fields
def pickField (keys : List Text) : Text × Json → Text × Json
  | (key,value) => (key,pick keys value)
termination_by structural field => field
end

def survivors (config : List (Text × Json)) : Json := pick (sortNames (config.map Prod.fst)) (.object config)

-- What the workflows hash, and the hash: a rolling sum in 32 bits.
def normalized (config : List (Text × Json)) : Text := stringify (survivors config)

def toInt32 (n : Int) : Int := n.bmod (2^32)

def rollingHash (normalized : Text) : Int :=
  (codeUnits normalized).foldl (fun hash (char : Nat) => toInt32 (toInt32 (hash*32)-hash+char)) 0

def digit36 (n : Nat) : Char := if n < 10 then Char.ofNat (48+n) else Char.ofNat (87+n)

-- Number.prototype.toString(36)
def toString36 (n : Nat) : Text := if n = 0 then ['0'] else (Nat.digits 36 n).reverse.map digit36

def workflowCacheKey (config : List (Text × Json)) : Text :=
  cacheSpace ++ toString36 (rollingHash (normalized config)).natAbs

def CompilationWorkflow.normalized (config : List (Text × Json)) : Text := CacheKeys.normalized config
def CompilationWorkflow.getCacheKey (config : List (Text × Json)) : Text := workflowCacheKey config
def BatchCompilationWorkflow.normalized (config : List (Text × Json)) : Text := CacheKeys.normalized config
def BatchCompilationWorkflow.getCacheKey (config : List (Text × Json)) : Text := workflowCacheKey config
def CacheWarmingWorkflow.normalized (config : List (Text × Json)) : Text := CacheKeys.normalized config
def CacheWarmingWorkflow.getCacheKey (config : List (Text × Json)) : Text := workflowCacheKey config

-- Two configurations are told apart by what the workflows hash just when they
-- differ in what survives the key list.
theorem workflows_separate_exact (one two : List (Text × Json)) :
    (CompilationWorkflow.normalized one ≠ CompilationWorkflow.normalized two ↔ survivors one ≠ survivors two) ∧
    (BatchCompilationWorkflow.normalized one ≠ BatchCompilationWorkflow.normalized two ↔ survivors one ≠ survivors two) ∧
    (CacheWarmingWorkflow.normalized one ≠ CacheWarmingWorkflow.normalized two ↔ survivors one ≠ survivors two) := by
  have exact : CacheKeys.normalized one ≠ CacheKeys.normalized two ↔ survivors one ≠ survivors two :=
    not_congr ⟨stringify_injective,congrArg stringify⟩
  exact ⟨exact,exact,exact⟩

-- A nested field that is named like no field of the configuration is dropped.
theorem pick_dropped (dropped : key ∉ keys) (before after : List (Text × Json)) (value other : Json) :
    pick keys (.object (before ++ (key,value) :: after)) = pick keys (.object (before ++ (key,other) :: after)) := by
  have mapped : ∀ fields, pickFields keys fields = fields.map (pickField keys) := by
    intro fields
    induction fields with
    | nil => rfl
    | cons field rest ih => exact congrArg (pickField keys field :: ·) ih
  rw [pick,pick]
  congr 1
  apply List.filterMap_congr
  intro name listed
  have differs : ¬key = name := fun same => dropped (same ▸ listed)
  simp only [mapped,List.map_append,List.map_cons,pickField,List.find?_append,List.find?_cons,differs,decide_false]

def field (name : String) : Json → Option Json
  | .object fields => (fields.find? fun field => field.1 = name.toList).map Prod.snd
  | _ => none

-- The URLs that the compiler fetches for a configuration.
def sourceUrls (config : List (Text × Json)) : List (Option Json) :=
  match field "sources" (.object config) with
  | some (.array sources) => sources.map (field "source")
  | _ => []

def oneSource (url : String) : List (Text × Json) :=
  [("name".toList,.string "list".toList),("sources".toList,.array [.object [("source".toList,.string url.toList)]])]

theorem oneSource_survivors (url other : String) : survivors (oneSource url) = survivors (oneSource other) := by
  have keys : sortNames ["name".toList,"sources".toList] = ["name".toList,"sources".toList] := by decide
  have foreign : "source".toList ∉ ["name".toList,"sources".toList] := by decide
  have dropped := pick_dropped foreign [] [] (.string url.toList) (.string other.toList)
  show pick (sortNames ["name".toList,"sources".toList]) _ = pick (sortNames ["name".toList,"sources".toList]) _
  rw [keys,oneSource,oneSource,pick,pick]
  simp only [pickFields,pickField,pick.eq_5,pickItems]
  rw [show pick _ (.object [("source".toList,.string url.toList)]) = _ from dropped]
  rfl

theorem urls_not_separated :
    ¬∀ one two, sourceUrls one ≠ sourceUrls two → CompilationWorkflow.normalized one ≠ CompilationWorkflow.normalized two := by
  intro always
  refine always (oneSource "https://a.example/list.txt") (oneSource "https://b.example/list.txt") ?_
    (congrArg stringify (oneSource_survivors _ _))
  intro same
  have urls : some (Json.string "https://a.example/list.txt".toList) = some (.string "https://b.example/list.txt".toList) :=
    (List.cons.inj same).1
  simp at urls

section Lengths

theorem toInt32_bound (n : Int) : (toInt32 n).natAbs ≤ 2^31 := by
  have low := @Int.le_bmod n (2^32) (by decide)
  have high := @Int.bmod_lt n (2^32) (by decide)
  unfold toInt32
  omega

theorem rollingHash_bound (normalized : Text) : (rollingHash normalized).natAbs ≤ 2^31 := by
  have folded : ∀ (units : List Nat) (hash : Int), hash.natAbs ≤ 2^31 →
      (units.foldl (fun hash (char : Nat) => toInt32 (toInt32 (hash*32)-hash+char)) hash).natAbs ≤ 2^31 := by
    intro units
    induction units with
    | nil => exact fun _ bounded => bounded
    | cons char units ih => exact fun hash _ => ih _ (toInt32_bound _)
  exact folded (codeUnits normalized) 0 (by decide)

theorem toString36_length (small : n ≤ 2^31) : (toString36 n).length ≤ 6 := by
  unfold toString36
  split
  · decide
  · rw [List.length_map,List.length_reverse,Nat.digits_length_le_iff (by decide)]
    omega

theorem workflowCacheKey_length (config : List (Text × Json)) : (workflowCacheKey config).length ≤ 12 := by
  have digits := toString36_length (rollingHash_bound (normalized config))
  have front : cacheSpace.length = 6 := rfl
  have whole : (workflowCacheKey config).length =
      cacheSpace.length+(toString36 (rollingHash (normalized config)).natAbs).length := List.length_append
  omega

theorem hexBytes_length (bytes : List Nat) : (bytes.flatMap hexByte).length = 2*bytes.length := by
  induction bytes with
  | nil => rfl
  | cons b bytes ih =>
    rw [List.flatMap_cons,List.length_append,ih,List.length_cons]
    show 2+2*bytes.length = 2*(bytes.length+1)
    omega

theorem getCacheKey_length (sha256 : Text → Digest) (config : Json) : (getCacheKey sha256 config).length = 38 := by
  have front : cacheSpace.length = 6 := rfl
  have hex : (((sha256 (stableStringify config)).bytes.flatMap hexByte).take 32).length = 32 := by
    rw [List.length_take,hexBytes_length,(sha256 _).size]
    rfl
  have whole : (getCacheKey sha256 config).length =
      cacheSpace.length+(((sha256 (stableStringify config)).bytes.flatMap hexByte).take 32).length := List.length_append
  omega

end Lengths

-- No configuration is warmed under the key that a request looks up: the two
-- keys have different lengths.
theorem warmed_keys_never_match (sha256 : Text → Digest) (config : List (Text × Json)) :
    CacheWarmingWorkflow.getCacheKey config ≠ getCacheKey sha256 (.object config) ∧
    CompilationWorkflow.getCacheKey config ≠ getCacheKey sha256 (.object config) := by
  have differ : workflowCacheKey config ≠ getCacheKey sha256 (.object config) := by
    intro same
    have lengths := congrArg List.length same
    have short := workflowCacheKey_length config
    have long := getCacheKey_length sha256 (.object config)
    omega
  exact ⟨differ,differ⟩

def listDigest : Digest :=
  ⟨[162,53,16,71,133,81,61,68,230,169,95,209,241,190,239,116,28,58,80,206,133,255,242,221,233,98,123,217,56,220,26,165],
    by decide,by decide⟩

theorem warmed_list_missed : ¬∀ (sha256 : Text → Digest) config,
    CacheWarmingWorkflow.getCacheKey config = getCacheKey sha256 (.object config) := by
  intro always
  have keys := congrArg List.length (always (fun _ => listDigest) (oneSource "https://a.example/list.txt"))
  have warmed := workflowCacheKey_length (oneSource "https://a.example/list.txt")
  have asked := getCacheKey_length (fun _ => listDigest) (.object (oneSource "https://a.example/list.txt"))
  unfold CacheWarmingWorkflow.getCacheKey at keys
  omega

end AdblockCompiler.CacheKeys
