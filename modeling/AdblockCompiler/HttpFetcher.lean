import AdblockCompiler.Hosts

-- HttpFetcher, whose filter keeps requests away from private addresses, and
-- validateProxyUrl of the proxy routes on top of it.
namespace AdblockCompiler.HttpFetcher
open JsText Hosts

-- What new URL makes of an accepted string.
structure URL where
  protocol : Text
  host : Host

def URL.hostname (url : URL) : Text := serialize url.host

-- Lower case, and without a legal trailing dot.
def normalizeHost (hostname : Text) : Text :=
  let host := lowerCase hostname
  if endsWith host ['.'] then host.dropLast else host

-- (1[6-9]|2[0-9]|3[01])\. at the beginning of a text.
def sixteenToThirtyOne : Text → Bool
  | '1' :: c :: '.' :: _ => '6' ≤ c && c ≤ '9'
  | '2' :: c :: '.' :: _ => '0' ≤ c && c ≤ '9'
  | '3' :: c :: '.' :: _ => c == '0' || c == '1'
  | _ => false

def private172 (host : Text) : Bool := startsWith host "172.".toList && sixteenToThirtyOne (host.drop 4)

def bareHost (host : Text) : Text :=
  if startsWith host ['['] && endsWith host [']'] then host.tail.dropLast else host

def safeHost (host : Text) : Bool :=
  if host = "localhost".toList ∨ host = "127.0.0.1".toList ∨ host = "0.0.0.0".toList then false
  else if startsWith host "10.".toList || startsWith host "192.168.".toList || private172 host then false
  else if startsWith host "169.254.".toList ∨ host = "metadata.google.internal".toList then false
  else
    let bare := bareHost host
    if bare = "::1".toList ∨ (bare.contains ':' &&
        (startsWith bare "fe80".toList || startsWith bare "fc".toList || startsWith bare "fd".toList)) = true then false
    else !endsWith host ".workers.dev".toList

section Fetching
variable (parse : Text → Option URL)

def isSafeUrl (url : Text) : Bool :=
  match parse url with
  | none => false
  | some parsed => safeHost (normalizeHost parsed.hostname)

structure HttpFetcherOptions where
  timeout : Nat
  userAgent : Text
  allowEmptyResponse : Bool
  headers : List (Text × Text)

structure RequestInit where
  timeout : Nat
  headers : List (Text × Text)
  redirect : Text

-- text() may reject as the request may.
structure Response where
  ok : Bool
  status : Nat
  statusText : Text
  text : Except Thrown Text

def fetch (request : Text → RequestInit → Except Thrown Response) (options : HttpFetcherOptions) (source : Text) : Except Thrown Text :=
  if !isSafeUrl parse source then
    throw ("Blocked request to private/internal address: ".toList ++ source)
  else do
    let response ← request source ⟨options.timeout,("User-Agent".toList,options.userAgent) :: options.headers,"follow".toList⟩
    if !response.ok then
      throw ("HTTP ".toList ++ decimal response.status ++ ": ".toList ++ response.statusText)
    let text ← response.text
    if text = [] ∧ !options.allowEmptyResponse then throw "Empty response received".toList
    return text

structure Env where
  URL_FRONTEND : Option Text
  URL_API : Option Text

def ownHostnames (env : Env) : List Text :=
  [env.URL_FRONTEND,env.URL_API].filterMap fun rawUrl =>
    match rawUrl with
    | none | some [] => none
    | some rawUrl => (parse rawUrl).map fun parsed => normalizeHost parsed.hostname

def validateProxyUrl (url : Text) (env : Option Env) : Option Text :=
  if url = [] then some "Missing url parameter".toList
  else
    match parse url with
    | none => some "Invalid URL".toList
    | some parsed =>
      if parsed.protocol ≠ "https:".toList then some "Only HTTPS URLs are allowed".toList
      else if !isSafeUrl parse url then some "URL targets a private or restricted address".toList
      else
        match env with
        | none => none
        | some env =>
          if normalizeHost parsed.hostname ∈ ownHostnames parse env then some "URL targets own Worker hostname".toList
          else none

end Fetching

-- The addresses that the filter is to keep out.
def InternalIPv4 (address : IPv4) : Prop :=
  InNet address (ip 127 0 0 0) 8 ∨ InNet address (ip 10 0 0 0) 8 ∨ InNet address (ip 172 16 0 0) 12 ∨
    InNet address (ip 192 168 0 0) 16 ∨ InNet address (ip 169 254 0 0) 16 ∨ address = ip 0 0 0 0

def InternalIPv6 (address : IPv6) : Prop :=
  address = loopback ∨ address.InNet 0xfc00 7 ∨ address.InNet 0xfe80 10 ∨
    ∃ embedded, address.mapped = some embedded ∧ InternalIPv4 embedded

def Internal : Host → Prop
  | .ipv4 address => InternalIPv4 address
  | .ipv6 address => InternalIPv6 address
  | _ => False

-- Of 127.0.0.0/8 and fe80::/10 the filter knows one address and one first piece,
-- and it knows no mapped addresses.
def Covered : Host → Prop
  | .ipv4 address => address = ip 127 0 0 1 ∨ ¬InNet address (ip 127 0 0 0) 8
  | .ipv6 address => address.mapped = none ∧ (address.first = 0xfe80 ∨ ¬address.InNet 0xfe80 10)
  | _ => True

-- Every part of the program that asks the filter refuses the URL.
def Refused (parse : Text → Option URL) (url : Text) : Prop :=
  isSafeUrl parse url = false ∧
  (∀ request options, fetch parse request options url = .error ("Blocked request to private/internal address: ".toList ++ url)) ∧
  ∀ env, validateProxyUrl parse url env ≠ none

theorem refused_exact (parse : Text → Option URL) (url : Text) : Refused parse url ↔ isSafeUrl parse url = false := by
  constructor
  · exact And.left
  · intro unsafe_
    refine ⟨unsafe_,?_,?_⟩
    · intro request options
      rw [fetch,unsafe_]
      rfl
    · intro env
      unfold validateProxyUrl
      split
      · nofun
      · split
        · nofun
        · rw [unsafe_]
          split
          · nofun
          · nofun

section Dotted

theorem normalize_plain (lower : ∀ c ∈ host, c.toLower = c) (last : host.getLast? ≠ some '.') : normalizeHost host = host := by
  have same : lowerCase host = host := by
    rw [lowerCase]
    exact (List.map_congr_left lower).trans (List.map_id host)
  have plain : endsWith host ['.'] = false := by
    refine Bool.eq_false_iff.mpr fun ends => last ?_
    obtain ⟨front,rfl⟩ := List.isSuffixOf_iff_suffix.mp ends
    exact List.getLast?_concat
  rw [normalizeHost,same,plain]
  rfl

theorem dotted_last (a b c d : Nat) : ∃ front last, dotted a b c d = front ++ [last] ∧ last.isDigit = true := by
  have nonempty : decimal d ≠ [] := Nat.toDigits_ne_nil
  refine ⟨decimal a ++ '.' :: (decimal b ++ '.' :: (decimal c ++ '.' :: (decimal d).dropLast)),(decimal d).getLast nonempty,?_,?_⟩
  · rw [dotted]
    simp only [List.append_assoc,List.cons_append,List.dropLast_append_getLast nonempty]
  · exact decimal_digit (List.getLast_mem nonempty)

theorem digit_lower {c : Char} (digit : c = '.' ∨ c.isDigit = true) : c.toLower = c := by
  rcases digit with rfl | digit
  · rfl
  · have small : c.val ≤ 57 := by
      simp only [Char.isDigit,Bool.and_eq_true,decide_eq_true_eq] at digit
      exact digit.2
    unfold Char.toLower
    split
    · grind
    · rfl

theorem dotted_normalize (a b c d : Nat) : normalizeHost (dotted a b c d) = dotted a b c d := by
  refine normalize_plain (fun _ member => digit_lower (dotted_chars member)) ?_
  obtain ⟨front,last,text,digit⟩ := dotted_last a b c d
  rw [text,List.getLast?_concat]
  intro same
  cases Option.some.inj same
  cases digit

theorem between_short (c : Char) (rest : Text) : sixteenToThirtyOne (c :: '.' :: rest) = false := by
  unfold sixteenToThirtyOne
  split
  · rename_i same
    cases same
    rfl
  · rename_i same
    cases same
    rfl
  · rename_i same
    cases same
    rfl
  · rfl

theorem between_exact (small : b < 256) (rest : Text) :
    sixteenToThirtyOne (decimal b ++ '.' :: rest) = decide (16 ≤ b ∧ b ≤ 31) := by
  by_cases one : b < 10
  · have single : decimal b = [b.digitChar] := Nat.toDigits_of_lt_base one
    have low : ¬(16 ≤ b ∧ b ≤ 31) := by omega
    rw [single,decide_eq_false low]
    exact between_short _ _
  · interval_cases b <;> rfl

theorem two_prefix (m n a b : Nat) (rest : Text) :
    startsWith (decimal a ++ '.' :: (decimal b ++ '.' :: rest)) (decimal m ++ '.' :: (decimal n ++ ['.'])) = true ↔ a = m ∧ b = n := by
  constructor
  · intro starts
    obtain ⟨tail,same⟩ := startsWith_iff.mp starts
    rw [List.append_assoc,List.cons_append,decimal_dot,List.append_assoc] at same
    obtain ⟨first,others⟩ := same
    exact ⟨first,((decimal_dot b n rest tail).mp others).1⟩
  · intro same
    rw [same.1,same.2]
    exact startsWith_iff.mpr ⟨rest,by simp⟩

end Dotted
section IPv4Hosts

theorem dotted_letter (letter : Char) (other : letter ≠ '.' ∧ letter.isDigit = false) (member : letter ∈ text) (a b c d : Nat) :
    dotted a b c d ≠ text := by
  intro same
  rw [← same] at member
  rcases dotted_chars member with dot | digit
  · exact other.1 dot
  · rw [other.2] at digit
    cases digit

theorem dotted_bare (a b c d : Nat) : bareHost (dotted a b c d) = dotted a b c d := by
  have outside : startsWith (dotted a b c d) ['['] = false := by
    refine Bool.eq_false_iff.mpr fun starts => ?_
    obtain ⟨rest,same⟩ := startsWith_iff.mp starts
    exact dotted_letter '[' (by decide) (List.mem_append_left rest List.mem_cons_self) a b c d same
  rw [bareHost,outside]
  rfl

theorem dotted_worker (a b c d : Nat) : endsWith (dotted a b c d) ".workers.dev".toList = false := by
  refine Bool.eq_false_iff.mpr fun ends => ?_
  obtain ⟨front,same⟩ := List.isSuffixOf_iff_suffix.mp ends
  have letter : 'v' ∈ front ++ ".workers.dev".toList := List.mem_append_right front (by decide)
  exact dotted_letter 'v' (by decide) letter a b c d same.symm

theorem private172_dotted (small : b < 256) (a c d : Nat) :
    private172 (dotted a b c d) = true ↔ a = 172 ∧ 16 ≤ b ∧ b ≤ 31 := by
  have first : startsWith (dotted a b c d) "172.".toList = true ↔ a = 172 := decimal_prefix 172 a _
  rw [private172,Bool.and_eq_true,first]
  refine and_congr_right fun same => ?_
  subst same
  have behind : (dotted 172 b c d).drop 4 = decimal b ++ '.' :: (decimal c ++ '.' :: decimal d) := rfl
  rw [behind,between_exact small,decide_eq_true_eq]

-- What the filter refuses among dotted texts, octet by octet.
theorem safe_dotted (small : b < 256) (a c d : Nat) : safeHost (dotted a b c d) = false ↔
    (a = 127 ∧ b = 0 ∧ c = 0 ∧ d = 1) ∨ (a = 0 ∧ b = 0 ∧ c = 0 ∧ d = 0) ∨ a = 10 ∨ (a = 192 ∧ b = 168) ∨
      (a = 172 ∧ 16 ≤ b ∧ b ≤ 31) ∨ (a = 169 ∧ b = 254) := by
  have noLocalhost : dotted a b c d ≠ "localhost".toList := dotted_letter 'l' (by decide) (by decide) a b c d
  have noMetadata : dotted a b c d ≠ "metadata.google.internal".toList := dotted_letter 'm' (by decide) (by decide) a b c d
  have noLoopback : dotted a b c d ≠ "::1".toList := dotted_letter ':' (by decide) (by decide) a b c d
  have noColon : (dotted a b c d).contains ':' = false := by
    refine Bool.eq_false_iff.mpr fun colon => ?_
    exact dotted_letter ':' (by decide) (List.contains_iff_mem.mp colon) a b c d rfl
  have loop : dotted a b c d = "127.0.0.1".toList ↔ a = 127 ∧ b = 0 ∧ c = 0 ∧ d = 1 := @dotted_exact a b c d 127 0 0 1
  have zero : dotted a b c d = "0.0.0.0".toList ↔ a = 0 ∧ b = 0 ∧ c = 0 ∧ d = 0 := @dotted_exact a b c d 0 0 0 0
  have ten : startsWith (dotted a b c d) "10.".toList = true ↔ a = 10 := decimal_prefix 10 a _
  have sixteen : startsWith (dotted a b c d) "192.168.".toList = true ↔ a = 192 ∧ b = 168 := two_prefix 192 168 a b _
  have link : startsWith (dotted a b c d) "169.254.".toList = true ↔ a = 169 ∧ b = 254 := two_prefix 169 254 a b _
  have twelve := private172_dotted small a c d
  have worker := dotted_worker a b c d
  rw [safeHost,dotted_bare]
  generalize "localhost".toList = localhost at *
  generalize "metadata.google.internal".toList = metadata at *
  generalize "::1".toList = colons at *
  generalize "127.0.0.1".toList = loopText at *
  generalize "0.0.0.0".toList = zeroText at *
  generalize "10.".toList = tenText at *
  generalize "192.168.".toList = sixteenText at *
  generalize "169.254.".toList = linkText at *
  generalize ".workers.dev".toList = workers at *
  simp only [noLocalhost,noMetadata,noLoopback,noColon,loop,zero,ten,sixteen,link,twelve,worker,Bool.or_eq_true,false_or,or_false,
    Bool.false_and,Bool.false_eq_true,if_false,Bool.not_false]
  split
  · grind
  · split
    · grind
    · split
      · grind
      · grind

end IPv4Hosts
-- The networks of the filter, octet by octet.
theorem inNet_octet (address : IPv4) (small : m < 256) : InNet address (ip m 0 0 0) 8 ↔ octet address 0 = m := by
  have bound := address.isLt
  have base : (ip m 0 0 0).toNat = m*16777216 := by
    rw [ip,BitVec.toNat_ofNat]
    omega
  rw [InNet,base,octet]
  omega

theorem inNet_octets (address : IPv4) (small : m < 256 ∧ k < 256) :
    InNet address (ip m k 0 0) 16 ↔ octet address 0 = m ∧ octet address 1 = k := by
  have bound := address.isLt
  have base : (ip m k 0 0).toNat = m*16777216 + k*65536 := by
    rw [ip,BitVec.toNat_ofNat]
    omega
  rw [InNet,base,octet,octet]
  omega

theorem inNet_twelve (address : IPv4) : InNet address (ip 172 16 0 0) 12 ↔
    octet address 0 = 172 ∧ 16 ≤ octet address 1 ∧ octet address 1 ≤ 31 := by
  have bound := address.isLt
  have base : (ip 172 16 0 0).toNat = 2886729728 := rfl
  rw [InNet,base,octet,octet]
  omega

theorem ip_octets (address : IPv4) (small : a < 256 ∧ b < 256 ∧ c < 256 ∧ d < 256) : address = ip a b c d ↔
    octet address 0 = a ∧ octet address 1 = b ∧ octet address 2 = c ∧ octet address 3 = d := by
  have whole := octets_exact address
  have bound (i : Nat) : octet address i < 256 := Nat.mod_lt _ (by decide)
  have base : (ip a b c d).toNat = ((a*256+b)*256+c)*256+d := by
    rw [ip,BitVec.toNat_ofNat]
    omega
  have one := bound 1
  have two := bound 2
  have three := bound 3
  rw [← BitVec.toNat_inj,base,whole]
  omega

theorem internal_covered (internal : InternalIPv4 address) :
    safeHost (normalizeHost (serializeIPv4 address)) = false ↔ address = ip 127 0 0 1 ∨ ¬InNet address (ip 127 0 0 0) 8 := by
  have second : octet address 1 < 256 := Nat.mod_lt _ (by decide)
  unfold InternalIPv4 at internal
  rw [inNet_octet address (by decide),inNet_octet address (by decide),inNet_twelve,inNet_octets address (by decide),
    inNet_octets address (by decide),ip_octets address (by decide)] at internal
  rw [serializeIPv4,dotted_normalize,safe_dotted second,ip_octets address (by decide),inNet_octet address (by decide)]
  rcases internal with loop | ten | twelve | sixteen | link | zero
  · constructor
    · intro refused
      rcases refused with one | zero | ten | sixteen | twelve | link
      · exact .inl one
      all_goals omega
    · intro covered
      exact .inl (covered.resolve_right (not_not.mpr loop))
  · exact iff_of_true (.inr (.inr (.inl ten))) (.inr (by omega))
  · exact iff_of_true (.inr (.inr (.inr (.inr (.inl twelve))))) (.inr (by omega))
  · exact iff_of_true (.inr (.inr (.inr (.inl sixteen)))) (.inr (by omega))
  · exact iff_of_true (.inr (.inr (.inr (.inr (.inr link))))) (.inr (by omega))
  · exact iff_of_true (.inr (.inl zero)) (.inr (by omega))

section IPv6Hosts

theorem bracket_normalize (lower : ∀ c ∈ text, c.toLower = c) : normalizeHost ('[' :: (text ++ [']'])) = '[' :: (text ++ [']']) := by
  refine normalize_plain ?_ ?_
  · intro c member
    rcases List.mem_cons.mp member with rfl | inside
    · rfl
    · rcases List.mem_append.mp inside with front | last
      · exact lower c front
      · rw [List.mem_singleton.mp last]
        rfl
  · rw [← List.cons_append,List.getLast?_concat]
    decide

theorem bracket_bare (text : Text) : bareHost ('[' :: (text ++ [']'])) = text := by
  have starts : startsWith ('[' :: (text ++ [']'])) ['['] = true := rfl
  have ends : endsWith ('[' :: (text ++ [']'])) [']'] = true := List.isSuffixOf_iff_suffix.mpr ⟨'[' :: text,rfl⟩
  rw [bareHost,starts,ends]
  exact List.dropLast_concat

theorem bracket_worker (text : Text) : endsWith ('[' :: (text ++ [']'])) ".workers.dev".toList = false := by
  refine Bool.eq_false_iff.mpr fun ends => ?_
  obtain ⟨front,same⟩ := List.isSuffixOf_iff_suffix.mp ends
  have split : front ++ ".workers.dev".toList = (front ++ ".workers.de".toList) ++ ['v'] := by
    rw [List.append_assoc]
    rfl
  have last := congrArg List.getLast? (split.symm.trans same)
  rw [← List.cons_append,List.getLast?_concat,List.getLast?_concat] at last
  cases last

-- Between brackets only the tests for IPv6 apply.
theorem safe_bracket (text : Text) : safeHost ('[' :: (text ++ [']'])) = false ↔
    text = "::1".toList ∨ (text.contains ':' &&
      (startsWith text "fe80".toList || startsWith text "fc".toList || startsWith text "fd".toList)) = true := by
  have other (first : Char) (rest : Text) (differs : first ≠ '[') : '[' :: (text ++ [']']) ≠ first :: rest :=
    fun same => differs (List.cons.inj same).1.symm
  have local_ : '[' :: (text ++ [']']) ≠ "localhost".toList := other 'l' "ocalhost".toList (by decide)
  have loop : '[' :: (text ++ [']']) ≠ "127.0.0.1".toList := other '1' "27.0.0.1".toList (by decide)
  have zero : '[' :: (text ++ [']']) ≠ "0.0.0.0".toList := other '0' ".0.0.0".toList (by decide)
  have metadata : '[' :: (text ++ [']']) ≠ "metadata.google.internal".toList := other 'm' "etadata.google.internal".toList (by decide)
  have ten : startsWith ('[' :: (text ++ [']'])) "10.".toList = false := rfl
  have sixteen : startsWith ('[' :: (text ++ [']'])) "192.168.".toList = false := rfl
  have link : startsWith ('[' :: (text ++ [']'])) "169.254.".toList = false := rfl
  have twelve : private172 ('[' :: (text ++ [']'])) = false := rfl
  rw [safeHost,bracket_bare,bracket_worker,if_neg (not_or.mpr ⟨local_,not_or.mpr ⟨loop,zero⟩⟩),ten,sixteen,twelve,link]
  rw [if_neg (by decide),if_neg (not_or.mpr ⟨Bool.false_ne_true,metadata⟩)]
  dsimp only
  split
  · rename_i bad
    exact ⟨fun _ => bad,fun _ => rfl⟩
  · rename_i good
    exact ⟨nofun,fun bad => absurd bad good⟩

theorem fc_hex : ∀ n : Fin 512, (startsWith (hex (0xfc00+n)) "fc".toList || startsWith (hex (0xfc00+n)) "fd".toList) = true := by
  decide +kernel

theorem fe_hex : ∀ n : Fin 64, (hex (0xfe80+n)).take 2 = "fe".toList ∧ (hex (0xfe80+n)).length = 4 ∧
    ((hex (0xfe80+n)) = "fe80".toList ↔ n.val = 0) := by
  decide +kernel

theorem startsWith_longer (starts : startsWith text first = true) (rest : Text) : startsWith (text ++ rest) first = true := by
  obtain ⟨tail,rfl⟩ := startsWith_iff.mp starts
  exact startsWith_iff.mpr ⟨tail ++ rest,List.append_assoc first tail rest⟩

theorem unique_refused (address : IPv6) (unique : address.InNet 0xfc00 7) : safeHost ('[' :: (serializeIPv6 address ++ [']'])) = false := by
  have bound : address.first < 65536 := BitVec.isLt _
  have near : 0xfc00 ≤ address.first ∧ address.first < 0xfc00+512 := by
    have same : address.first / 2^(16-7) = 0xfc00 / 2^(16-7) := unique
    omega
  obtain ⟨rest,text⟩ := @serialize_first address (by omega)
  have start := fc_hex ⟨address.first-0xfc00,by omega⟩
  have whole : 0xfc00+(address.first-0xfc00) = address.first := by omega
  rw [whole] at start
  have colon : (serializeIPv6 address).contains ':' = true := by
    rw [text,List.contains_iff_mem]
    simp
  refine (safe_bracket _).mpr (.inr ?_)
  rw [colon,text]
  rcases Bool.or_eq_true_iff.mp start with fc | fd
  · rw [startsWith_longer fc]
    simp
  · rw [startsWith_longer fd]
    simp

theorem link_refused (address : IPv6) (link : address.InNet 0xfe80 10) :
    safeHost ('[' :: (serializeIPv6 address ++ [']'])) = false ↔ address.first = 0xfe80 := by
  have bound : address.first < 65536 := BitVec.isLt _
  have near : 0xfe80 ≤ address.first ∧ address.first < 0xfe80+64 := by
    have same : address.first / 2^(16-10) = 0xfe80 / 2^(16-10) := link
    omega
  obtain ⟨rest,text⟩ := @serialize_first address (by omega)
  obtain ⟨front,length,exact_⟩ := fe_hex ⟨address.first-0xfe80,by omega⟩
  have whole : 0xfe80+(address.first-0xfe80) = address.first := by omega
  rw [whole] at front length exact_
  have colon : (hex address.first ++ ':' :: rest).contains ':' = true := by
    rw [List.contains_iff_mem]
    simp
  have digits : ∃ x y, hex address.first = ['f','e',x,y] := by
    rcases parts : hex address.first with _ | ⟨a,_ | ⟨b,_ | ⟨c,_ | ⟨d,_ | _⟩⟩⟩⟩ <;> rw [parts] at front length <;> cases length
    obtain ⟨rfl,others⟩ := List.cons.inj front
    obtain ⟨rfl,-⟩ := List.cons.inj others
    exact ⟨c,d,rfl⟩
  rw [safe_bracket,text,colon,Bool.true_and,Bool.or_eq_true,Bool.or_eq_true]
  constructor
  · intro bad
    obtain ⟨x,y,digits⟩ := digits
    rw [digits] at bad
    rcases bad with loop | (fe80 | fc) | fd
    · cases (List.cons.inj loop).1
    · obtain ⟨tail,same⟩ := startsWith_iff.mp fe80
      have third : ['f','e',x,y] = "fe80".toList := (List.append_inj same rfl).1
      have zero : address.first - 0xfe80 = 0 := exact_.mp (digits.trans third)
      omega
    · cases fc
    · cases fd
  · intro same
    have fe80 : hex address.first = "fe80".toList := by
      rw [same]
      rfl
    exact .inr (.inl (.inl (startsWith_longer (startsWith_iff.mpr ⟨[],fe80.trans (List.append_nil _).symm⟩) _)))

theorem mapped_passes {address : IPv6} (mapped : address.mapped = some embedded) :
    safeHost ('[' :: (serializeIPv6 address ++ [']'])) = true := by
  obtain ⟨rest,text⟩ := serialize_mapped mapped
  apply eq_true_of_ne_false
  intro bad
  rw [safe_bracket,text] at bad
  rcases bad with loop | later
  · cases (List.cons.inj (List.cons.inj (List.cons.inj loop).2).2).1
  · rw [Bool.and_eq_true,Bool.or_eq_true,Bool.or_eq_true] at later
    rcases later.2 with (fe80 | fc) | fd
    · cases fe80
    · cases fc
    · cases fd

theorem internal_covered6 (internal : InternalIPv6 address) : safeHost (normalizeHost (serialize (.ipv6 address))) = false ↔
    address.mapped = none ∧ (address.first = 0xfe80 ∨ ¬address.InNet 0xfe80 10) := by
  have normal : normalizeHost (serialize (.ipv6 address)) = '[' :: (serializeIPv6 address ++ [']']) :=
    bracket_normalize (serialize_lower address)
  rw [normal]
  cases mapped : address.mapped with
  | some embedded =>
    rw [mapped_passes mapped]
    exact ⟨nofun,nofun⟩
  | none =>
    rcases internal with rfl | unique | link | ⟨embedded,found,-⟩
    · refine ⟨fun _ => ⟨rfl,.inr (by decide)⟩,fun _ => ?_⟩
      decide
    · refine ⟨fun _ => ⟨rfl,.inr fun link => ?_⟩,fun _ => unique_refused address unique⟩
      have one : address.first / 2^(16-7) = 0xfc00 / 2^(16-7) := unique
      have other : address.first / 2^(16-10) = 0xfe80 / 2^(16-10) := link
      omega
    · rw [link_refused address link]
      exact ⟨fun same => ⟨rfl,.inl same⟩,fun covered => covered.2.resolve_right (not_not.mpr link)⟩
    · rw [mapped] at found
      cases found

end IPv6Hosts

theorem filter_exact (accepted : parse url = some parsed) (internal : Internal parsed.host) :
    Refused parse url ↔ Covered parsed.host := by
  rw [refused_exact,isSafeUrl,accepted]
  obtain ⟨protocol,host⟩ := parsed
  cases host with
  | ipv4 address => exact internal_covered internal
  | ipv6 address => exact internal_covered6 internal
  | domain _ | opaqueHost _ | emptyHost => exact internal.elim

-- A parser that reads one URL.
def reads (source : Text) (host : Host) (text : Text) : Option URL :=
  if text = source then some ⟨"https:".toList,host⟩ else none

theorem tens_refused : Refused (reads "https://10.0.0.1/".toList (.ipv4 (ip 10 0 0 1))) "https://10.0.0.1/".toList := by
  have accepted : reads "https://10.0.0.1/".toList (.ipv4 (ip 10 0 0 1)) "https://10.0.0.1/".toList =
      some ⟨"https:".toList,.ipv4 (ip 10 0 0 1)⟩ := if_pos rfl
  have internal : InternalIPv4 (ip 10 0 0 1) := .inr (.inl (by decide))
  exact (filter_exact accepted internal).mpr (.inr (by decide))

def linkLocal : IPv6 := ⟨[0xfe81,0,0,0,0,0,0,1],rfl⟩
def mappedLoopback : IPv6 := ⟨[0,0,0,0,0,0xffff,0x7f00,1],rfl⟩

theorem internal_passes :
    (InternalIPv4 (ip 127 0 0 2) ∧ ¬Refused (reads "https://127.0.0.2/".toList (.ipv4 (ip 127 0 0 2))) "https://127.0.0.2/".toList) ∧
    (InternalIPv6 linkLocal ∧ ¬Refused (reads "https://[fe81::1]/".toList (.ipv6 linkLocal)) "https://[fe81::1]/".toList) ∧
    InternalIPv6 mappedLoopback ∧
      ¬Refused (reads "https://[::ffff:127.0.0.1]/".toList (.ipv6 mappedLoopback)) "https://[::ffff:127.0.0.1]/".toList := by
  have passes (source : Text) (host : Host) (safe : safeHost (normalizeHost (serialize host)) = true) :
      ¬Refused (reads source host) source := by
    intro refused
    have unsafe_ := refused.1
    rw [isSafeUrl,reads,if_pos rfl] at unsafe_
    exact Bool.false_ne_true (unsafe_.symm.trans safe)
  refine ⟨⟨.inl (by decide),passes _ _ (by decide)⟩,⟨.inr (.inr (.inl (by decide))),passes _ _ (by decide)⟩,?_,passes _ _ (by decide)⟩
  exact .inr (.inr (.inr ⟨ip 127 0 0 1,by decide,.inl (by decide)⟩))

end AdblockCompiler.HttpFetcher
