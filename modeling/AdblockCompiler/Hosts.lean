import AdblockCompiler.JsText

-- Hosts as the URL standard parses them, and the texts its serializer gives.
namespace Hosts
open JsText

abbrev IPv4 := BitVec 32

structure IPv6 where
  pieces : List (BitVec 16)
  eight : pieces.length = 8
  deriving DecidableEq

inductive Host where
  | domain (name : Text)
  | ipv4 (address : IPv4)
  | ipv6 (address : IPv6)
  | opaqueHost (text : Text)
  | emptyHost
  deriving DecidableEq

def decimal (n : Nat) : Text := Nat.toDigits 10 n
def hex (n : Nat) : Text := Nat.toDigits 16 n

section Dotted

-- Octets from the first part of the dotted text on.
def octet (address : IPv4) (i : Nat) : Nat := address.toNat / 256^(3-i) % 256

def dotted (a b c d : Nat) : Text := decimal a ++ '.' :: (decimal b ++ '.' :: (decimal c ++ '.' :: decimal d))

def serializeIPv4 (address : IPv4) : Text := dotted (octet address 0) (octet address 1) (octet address 2) (octet address 3)

def ip (a b c d : Nat) : IPv4 := BitVec.ofNat 32 (((a*256+b)*256+c)*256+d)

def InNet (address net : IPv4) (bits : Nat) : Prop := address.toNat / 2^(32-bits) = net.toNat / 2^(32-bits)

instance : Decidable (InNet address net bits) := inferInstanceAs (Decidable (_ = _))

theorem decimal_digit (member : c ∈ decimal n) : c.isDigit = true := Nat.isDigit_of_mem_toDigits (by decide) (by decide) member

theorem dot_decimal (n : Nat) : '.' ∉ decimal n := fun member => by cases decimal_digit member

theorem decimal_injective (same : decimal m = decimal n) : m = n := by
  have read := congrArg (Nat.ofDigitChars 10 · 0) same
  simpa [decimal] using read

theorem first_separator {α : Type} {c : α} {left right x y : List α} (one : c ∉ left) (other : c ∉ right)
    (same : left ++ c :: x = right ++ c :: y) : left = right ∧ x = y := by
  induction left generalizing right with
  | nil =>
    cases right with
    | nil => exact ⟨rfl,(List.cons.inj same).2⟩
    | cons d right => exact absurd (List.mem_cons.mpr (.inl (List.cons.inj same).1)) other
  | cons d left ih =>
    cases right with
    | nil => exact absurd (List.mem_cons.mpr (.inl (List.cons.inj same).1.symm)) one
    | cons e right =>
      obtain ⟨rfl,rest⟩ := List.cons.inj same
      obtain ⟨rfl,tails⟩ := ih (fun member => one (List.mem_cons_of_mem d member))
        (fun member => other (List.mem_cons_of_mem d member)) rest
      exact ⟨rfl,tails⟩

theorem decimal_dot (m n : Nat) (x y : Text) : decimal m ++ '.' :: x = decimal n ++ '.' :: y ↔ m = n ∧ x = y := by
  constructor
  · intro same
    obtain ⟨parts,rest⟩ := first_separator (dot_decimal m) (dot_decimal n) same
    exact ⟨decimal_injective parts,rest⟩
  · intro same
    rw [same.1,same.2]

theorem decimal_prefix (m n : Nat) (rest : Text) : startsWith (decimal n ++ '.' :: rest) (decimal m ++ ['.']) = true ↔ n = m := by
  constructor
  · intro starts
    obtain ⟨tail,same⟩ := startsWith_iff.mp starts
    rw [List.append_assoc] at same
    exact ((decimal_dot n m rest tail).mp same).1
  · intro same
    exact startsWith_iff.mpr ⟨rest,by rw [same,List.append_assoc]; rfl⟩

theorem dotted_exact : dotted a b c d = dotted a' b' c' d' ↔ a = a' ∧ b = b' ∧ c = c' ∧ d = d' := by
  unfold dotted
  rw [decimal_dot,decimal_dot,decimal_dot]
  constructor
  · intro same
    exact ⟨same.1,same.2.1,same.2.2.1,decimal_injective same.2.2.2⟩
  · intro same
    rw [same.1,same.2.1,same.2.2.1,same.2.2.2]
    exact ⟨rfl,rfl,rfl,rfl⟩

theorem dotted_chars (member : x ∈ dotted a b c d) : x = '.' ∨ x.isDigit = true := by
  simp only [dotted,List.mem_append,List.mem_cons] at member
  rcases member with first | dot | second | dot | third | dot | fourth
  · exact .inr (decimal_digit first)
  · exact .inl dot
  · exact .inr (decimal_digit second)
  · exact .inl dot
  · exact .inr (decimal_digit third)
  · exact .inl dot
  · exact .inr (decimal_digit fourth)

theorem octets_exact (address : IPv4) : address.toNat =
    ((octet address 0 * 256 + octet address 1) * 256 + octet address 2) * 256 + octet address 3 := by
  have bound := address.isLt
  simp only [octet]
  omega

end Dotted

section Compressed

-- The first of the longest runs of zero pieces, where it has two pieces or more.
structure Runs where
  longestIndex : Option Nat
  longestSize : Nat
  foundIndex : Option Nat
  foundSize : Nat

def Runs.close (runs : Runs) : Runs :=
  if runs.foundSize > runs.longestSize then ⟨runs.foundIndex,runs.foundSize,none,0⟩
  else ⟨runs.longestIndex,runs.longestSize,none,0⟩

def Runs.scan (runs : Runs) : Nat → List (BitVec 16) → Runs
  | _,[] => runs
  | i,piece :: rest =>
    if piece = 0 then
      Runs.scan { runs with foundIndex := some (runs.foundIndex.getD i), foundSize := runs.foundSize+1 } (i+1) rest
    else Runs.scan runs.close (i+1) rest

def compressedIndex (pieces : List (BitVec 16)) : Option Nat := (Runs.scan ⟨none,1,none,0⟩ 0 pieces).close.longestIndex

def write (compress : Option Nat) : Nat → Bool → List (BitVec 16) → Text
  | _,_,[] => []
  | i,ignore0,piece :: rest =>
    if ignore0 && piece = 0 then write compress (i+1) true rest
    else if compress = some i then (if i = 0 then [':',':'] else [':']) ++ write compress (i+1) true rest
    else hex piece.toNat ++ ((if i ≠ 7 then [':'] else []) ++ write compress (i+1) false rest)

def serializeIPv6 (address : IPv6) : Text := write (compressedIndex address.pieces) 0 false address.pieces

example : serializeIPv6 ⟨[0x2001,0xdb8,0,1,0,0,0,0xa],rfl⟩ = "2001:db8:0:1::a".toList := by decide

def loopback : IPv6 := ⟨[0,0,0,0,0,0,0,1],rfl⟩

def IPv6.first (address : IPv6) : Nat := (address.pieces.headD 0).toNat

-- A network given by up to sixteen bits of the first piece.
def IPv6.InNet (address : IPv6) (net bits : Nat) : Prop := address.first / 2^(16-bits) = net / 2^(16-bits)

instance {address : IPv6} : Decidable (address.InNet net bits) := inferInstanceAs (Decidable (_ = _))

def IPv6.mapped (address : IPv6) : Option IPv4 :=
  match address.pieces with
  | [a,b,c,d,e,f,high,low] =>
    if a = 0 ∧ b = 0 ∧ c = 0 ∧ d = 0 ∧ e = 0 ∧ f = 0xffff then some (high ++ low) else none
  | _ => none

theorem scan_first (longest : runs.longestIndex ≠ some 0) (found : runs.foundIndex ≠ some 0) (later : 0 < i)
    (pieces : List (BitVec 16)) : (Runs.scan runs i pieces).close.longestIndex ≠ some 0 := by
  have closed : ∀ runs : Runs, runs.longestIndex ≠ some 0 → runs.foundIndex ≠ some 0 →
      runs.close.longestIndex ≠ some 0 ∧ runs.close.foundIndex ≠ some 0 := by
    intro runs longest found
    unfold Runs.close
    split
    · exact ⟨found,nofun⟩
    · exact ⟨longest,nofun⟩
  induction pieces generalizing runs i with
  | nil => exact (closed runs longest found).1
  | cons piece rest ih =>
    rw [Runs.scan]
    split
    · refine ih longest ?_ (Nat.succ_pos i)
      cases before : runs.foundIndex with
      | none =>
        intro same
        cases later.ne (Option.some.inj same).symm
      | some j => rwa [before] at found
    · obtain ⟨one,two⟩ := closed runs longest found
      exact ih one two (Nat.succ_pos i)

-- An address that does not begin with zeros begins with its first piece.
theorem serialize_first {address : IPv6} (nonzero : address.first ≠ 0) :
    ∃ rest, serializeIPv6 address = hex address.first ++ ':' :: rest := by
  obtain ⟨pieces,eight⟩ := address
  cases pieces with
  | nil => cases eight
  | cons piece rest =>
    have other : piece ≠ 0 := fun zero => nonzero (congrArg BitVec.toNat zero)
    have inside : compressedIndex (piece :: rest) ≠ some 0 := by
      rw [compressedIndex,Runs.scan,if_neg other]
      refine scan_first ?_ ?_ Nat.one_pos rest <;> exact fun same => by cases same
    refine ⟨write (compressedIndex (piece :: rest)) 1 false rest,?_⟩
    rw [serializeIPv6,write,Bool.false_and,if_neg Bool.false_ne_true,if_neg inside]
    rfl

theorem mapped_exact {address : IPv6} : address.mapped = some embedded ↔
    ∃ high low, address.pieces = [0,0,0,0,0,0xffff,high,low] ∧ embedded = high ++ low := by
  unfold IPv6.mapped
  constructor
  · intro found
    split at found
    · rename_i a b c d e f high low pieces
      split at found
      · rename_i zeros
        obtain ⟨rfl,rfl,rfl,rfl,rfl,rfl⟩ := zeros
        exact ⟨high,low,pieces,(Option.some.inj found).symm⟩
      · cases found
    · cases found
  · intro found
    obtain ⟨high,low,pieces,rfl⟩ := found
    rw [pieces]
    exact if_pos ⟨rfl,rfl,rfl,rfl,rfl,rfl⟩

theorem serialize_mapped {address : IPv6} (mapped : address.mapped = some embedded) :
    ∃ rest, serializeIPv6 address = "::ffff:".toList ++ rest := by
  obtain ⟨high,low,pieces,-⟩ := mapped_exact.mp mapped
  have index : compressedIndex address.pieces = some 0 := by
    rw [pieces]
    by_cases one : high = 0#16
    · by_cases two : low = 0#16 <;> simp [compressedIndex,Runs.scan,Runs.close,one,two]
    · by_cases two : low = 0#16 <;> simp [compressedIndex,Runs.scan,Runs.close,one,two]
  rw [serializeIPv6,index,pieces]
  exact ⟨write (some 0) 6 false [high,low],rfl⟩

theorem hex_digit {c : Char} (member : c ∈ hex n) : ∃ digit < 16, c = Nat.digitChar digit := by
  induction n using Nat.strongRecOn with
  | ind n ih =>
    unfold hex at member
    rw [Nat.toDigits_eq_if (by decide)] at member
    split at member
    · rename_i small
      exact ⟨n,small,List.mem_singleton.mp member⟩
    · rcases List.mem_append.mp member with front | last
      · exact ih (n/16) (by omega) front
      · exact ⟨n % 16,Nat.mod_lt n (by decide),List.mem_singleton.mp last⟩

theorem write_chars {c : Char} (pieces : List (BitVec 16)) (member : c ∈ write compress i ignore0 pieces) :
    c = ':' ∨ ∃ digit < 16, c = Nat.digitChar digit := by
  induction pieces generalizing i ignore0 with
  | nil => cases member
  | cons piece rest ih =>
    rw [write] at member
    split at member
    · exact ih member
    · split at member
      · rcases List.mem_append.mp member with colons | after
        · split at colons <;> simp at colons <;> exact .inl colons
        · exact ih after
      · rcases List.mem_append.mp member with digits | after
        · exact .inr (hex_digit digits)
        · rcases List.mem_append.mp after with colon | after
          · split at colon
            · exact .inl (List.mem_singleton.mp colon)
            · cases colon
          · exact ih after

theorem serialize_lower (address : IPv6) : ∀ c ∈ serializeIPv6 address, c.toLower = c := by
  intro c member
  rcases write_chars address.pieces member with rfl | ⟨digit,small,rfl⟩
  · rfl
  · interval_cases digit <;> rfl

end Compressed

def serialize : Host → Text
  | .domain name => name
  | .ipv4 address => serializeIPv4 address
  | .ipv6 address => '[' :: (serializeIPv6 address ++ [']'])
  | .opaqueHost text => text
  | .emptyHost => []

end Hosts
