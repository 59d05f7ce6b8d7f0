import AdblockCompiler.Base64

-- Stored passwords: a salt and what it and the password derive, as text.
namespace AdblockCompiler.Passwords
open JsText Base64

def SALT_BYTES : Nat := 16
def KEY_BYTES : Nat := 32

def toUrl (c : Char) : Char := if c = '+' then '-' else if c = '/' then '_' else c
def fromUrl (c : Char) : Char := if c = '-' then '+' else if c = '_' then '/' else c

-- The last replacement is that of /=+$/.
def toBase64Url (bytes : List UInt8) : Text := ((btoa bytes).map toUrl).rdropWhile (· = '=')

def padEnd (text : Text) (length : Nat) : Text := text ++ List.replicate (length-text.length) '='

-- none where atob throws.
def fromBase64Url (b64url : Text) : Option (List UInt8) :=
  let b64 := b64url.map fromUrl
  atob (padEnd b64 (b64.length+(4-b64.length%4)%4))

-- PBKDF2 is a parameter, and so is the salt that is drawn.
section Derived
variable (pbkdf2Derive : Text → List UInt8 → Except Thrown (List UInt8))

def hashPassword (salt : List UInt8) (password : Text) : Except Thrown Text :=
  (pbkdf2Derive password salt).map fun derived => toBase64Url salt ++ ':' :: toBase64Url derived

-- The loop over all bytes, which never stops early.
def difference : List UInt8 → List UInt8 → UInt8
  | one :: derived,other :: expected => (one ^^^ other) ||| difference derived expected
  | _,_ => 0

def verifyPassword (password stored : Text) : Bool :=
  match stored.findIdx? (· = ':') with
  | none => false
  | some colonIdx =>
    if colonIdx < 1 then false
    else
      match fromBase64Url (stored.take colonIdx),fromBase64Url (stored.drop (colonIdx+1)) with
      | some salt,some expected =>
        if salt.length ≠ SALT_BYTES ∨ expected.length ≠ KEY_BYTES then false
        else
          match pbkdf2Derive password salt with
          | .error _ => false
          | .ok derived => if derived.length ≠ expected.length then false else difference derived expected = 0
      | _,_ => false

end Derived

section Codec

theorem toUrl_letter : ∀ n < 64, fromUrl (toUrl (letter n)) = letter n ∧ toUrl (letter n) ≠ '=' ∧ toUrl (letter n) ≠ ':' := by decide

theorem trailing_dropped {front : Text} (plain : ∀ c ∈ front, c ≠ '=') (n : Nat) :
    (front ++ List.replicate n '=').rdropWhile (· = '=') = front := by
  induction n with
  | zero =>
    rw [List.replicate_zero,List.append_nil,List.rdropWhile_eq_self_iff]
    intro some equals
    exact plain _ (List.getLast_mem some) (by simpa using equals)
  | succ n ih =>
    rw [List.replicate_succ',← List.append_assoc,List.rdropWhile_concat_pos _ _ _ (by simp)]
    exact ih

theorem url_letters (bytes : List UInt8) : toBase64Url bytes = (sextets bytes).map fun n => toUrl (letter n) := by
  have front : (btoa bytes).map toUrl = ((sextets bytes).map fun n => toUrl (letter n)) ++ List.replicate (padding bytes) '=' := by
    rw [btoa,List.map_append,List.map_map,List.map_replicate]
    rfl
  have plain : ∀ c ∈ (sextets bytes).map fun n => toUrl (letter n), c ≠ '=' := by
    rw [List.forall_mem_map]
    exact fun n member => (toUrl_letter n (sextets_small bytes n member)).2.1
  rw [toBase64Url,front]
  exact trailing_dropped plain (padding bytes)

theorem colon_free (bytes : List UInt8) : ':' ∉ toBase64Url bytes := by
  rw [url_letters]
  intro member
  obtain ⟨n,inside,same⟩ := List.mem_map.mp member
  exact (toUrl_letter n (sextets_small bytes n inside)).2.2 same

-- The codec of the stored texts loses nothing.
theorem fromBase64Url_toBase64Url (bytes : List UInt8) : fromBase64Url (toBase64Url bytes) = some bytes := by
  have back : (toBase64Url bytes).map fromUrl = (sextets bytes).map letter := by
    rw [url_letters,List.map_map]
    refine List.map_congr_left ?_
    exact fun n member => (toUrl_letter n (sextets_small bytes n member)).1
  have pad : ((sextets bytes).map letter).length+(4-((sextets bytes).map letter).length%4)%4-((sextets bytes).map letter).length =
      padding bytes := by
    have lengths := sextets_length bytes
    have small := padding_small bytes
    rw [List.length_map]
    omega
  have whole : padEnd ((sextets bytes).map letter)
      (((sextets bytes).map letter).length+(4-((sextets bytes).map letter).length%4)%4) = btoa bytes := by
    rw [padEnd,pad]
    rfl
  rw [fromBase64Url,back]
  exact (congrArg atob whole).trans (atob_btoa bytes)

theorem colon_front {front back : Text} (plain : ':' ∉ front) :
    (front ++ ':' :: back).findIdx? (· = ':') = some front.length := by
  induction front with
  | nil => rfl
  | cons c front ih =>
    have different : c ≠ ':' := fun same => plain (same ▸ List.mem_cons_self)
    have rest := ih (fun member => plain (List.mem_cons_of_mem c member))
    simp [List.findIdx?_cons,different,rest]

end Codec

section Verified

-- The accumulator is zero only if no byte differs.
theorem difference_zero {derived expected : List UInt8} (lengths : derived.length = expected.length) :
    difference derived expected = 0 ↔ derived = expected := by
  induction derived generalizing expected with
  | nil =>
    have none := List.eq_nil_of_length_eq_zero lengths.symm
    simp [none,difference]
  | cons one derived ih =>
    obtain _ | ⟨other,expected⟩ := expected
    · cases lengths
    · have rest := ih (Nat.succ.inj lengths)
      simp [difference,rest]

variable {pbkdf2Derive : Text → List UInt8 → Except Thrown (List UInt8)}

theorem salt_some {salt : List UInt8} (salted : salt.length = SALT_BYTES) : ¬(toBase64Url salt).length < 1 := by
  have lengths := sextets_length salt
  rw [padding,salted,SALT_BYTES] at lengths
  rw [url_letters,List.length_map]
  omega

-- What a text of the stored format accepts.
theorem verify_stored {salt expected : List UInt8} (salted : salt.length = SALT_BYTES) (keyed : expected.length = KEY_BYTES)
    (candidate : Text) :
    verifyPassword pbkdf2Derive candidate (toBase64Url salt ++ ':' :: toBase64Url expected) = true ↔
      pbkdf2Derive candidate salt = .ok expected := by
  have front : (toBase64Url salt ++ ':' :: toBase64Url expected).take (toBase64Url salt).length = toBase64Url salt := by simp
  have back : (toBase64Url salt ++ ':' :: toBase64Url expected).drop ((toBase64Url salt).length+1) = toBase64Url expected := by simp
  have shape : ¬(salt.length ≠ SALT_BYTES ∨ expected.length ≠ KEY_BYTES) := by simp [salted,keyed]
  simp only [verifyPassword,colon_front (colon_free salt)]
  rw [if_neg (salt_some salted),front,back,fromBase64Url_toBase64Url,fromBase64Url_toBase64Url]
  dsimp only
  rw [if_neg shape]
  cases pbkdf2Derive candidate salt with
  | error thrown => simp
  | ok derived =>
    by_cases lengths : derived.length = expected.length
    · simp [lengths,difference_zero lengths]
    · have different : derived ≠ expected := fun same => lengths (congrArg List.length same)
      simp [lengths,different]

-- A stored password accepts what derives the same key, and nothing else.
theorem stored_accepts {salt : List UInt8} (salted : salt.length = SALT_BYTES)
    (keyed : ∀ password derived, pbkdf2Derive password salt = .ok derived → derived.length = KEY_BYTES)
    {password stored : Text} (hashed : hashPassword pbkdf2Derive salt password = .ok stored) (candidate : Text) :
    verifyPassword pbkdf2Derive candidate stored = true ↔ pbkdf2Derive candidate salt = pbkdf2Derive password salt := by
  unfold hashPassword at hashed
  cases derives : pbkdf2Derive password salt with
  | error thrown =>
    rw [derives] at hashed
    cases hashed
  | ok expected =>
    rw [derives] at hashed
    cases hashed
    exact verify_stored salted (keyed password expected derives) candidate

-- Two passwords and what PBKDF2 derives from them.
def sampleDerive (password : Text) (_ : List UInt8) : Except Thrown (List UInt8) :=
  if password = "adblock".toList then .ok
    [61,74,92,65,223,174,191,51,156,181,18,189,110,24,16,240,161,93,30,87,226,68,238,204,228,136,163,75,249,113,106,226]
  else .ok
    [213,255,247,18,152,20,129,78,175,111,44,117,254,179,37,112,148,23,119,32,142,129,251,55,224,95,231,82,211,191,223,253]

def sampleSalt : List UInt8 := [0,1,2,3,4,5,6,7,8,9,10,11,12,13,14,15]

def sampleStored : Text := "AAECAwQFBgcICQoLDA0ODw:PUpcQd-uvzOctRK9bhgQ8KFdHlfiRO7M5IijS_lxauI".toList

theorem adblock_accepts :
    verifyPassword sampleDerive "adblock".toList sampleStored = true ∧
    verifyPassword sampleDerive "Adblock".toList sampleStored = false := by
  have keyed : ∀ password derived, sampleDerive password sampleSalt = .ok derived → derived.length = KEY_BYTES := by
    intro password derived derives
    unfold sampleDerive at derives
    split at derives
    all_goals
      cases derives
      rfl
  have hashed : hashPassword sampleDerive sampleSalt "adblock".toList = .ok sampleStored := by decide
  have accepts := stored_accepts rfl keyed hashed
  refine ⟨(accepts "adblock".toList).mpr rfl,?_⟩
  exact Bool.eq_false_iff.mpr fun accepted => absurd ((accepts "Adblock".toList).mp accepted) (by decide)

end Verified

end AdblockCompiler.Passwords
