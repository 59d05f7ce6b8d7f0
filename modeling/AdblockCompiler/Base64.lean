import AdblockCompiler.JsText

-- btoa and atob on bytes: three bytes are four letters.
namespace Base64
open JsText

def letter (n : Nat) : Char :=
  if n < 26 then Char.ofNat (65+n)
  else if n < 52 then Char.ofNat (71+n)
  else if n < 62 then Char.ofNat (n-4)
  else if n = 62 then '+'
  else '/'

def value (c : Char) : Option Nat :=
  if 'A' ≤ c ∧ c ≤ 'Z' then some (c.toNat-65)
  else if 'a' ≤ c ∧ c ≤ 'z' then some (c.toNat-71)
  else if '0' ≤ c ∧ c ≤ '9' then some (c.toNat+4)
  else if c = '+' then some 62
  else if c = '/' then some 63
  else none

def sextets : List UInt8 → List Nat
  | a :: b :: c :: rest =>
    a.toNat/4 :: (a.toNat%4*16+b.toNat/16) :: (b.toNat%16*4+c.toNat/64) :: c.toNat%64 :: sextets rest
  | [a,b] => [a.toNat/4,a.toNat%4*16+b.toNat/16,b.toNat%16*4]
  | [a] => [a.toNat/4,a.toNat%4*16]
  | [] => []

-- Bits that fill no byte are dropped.
def octets : List Nat → List UInt8
  | a :: b :: c :: d :: rest => .ofNat (a*4+b/16) :: .ofNat (b%16*16+c/4) :: .ofNat (c%4*64+d) :: octets rest
  | [a,b,c] => [.ofNat (a*4+b/16),.ofNat (b%16*16+c/4)]
  | [a,b] => [.ofNat (a*4+b/16)]
  | _ => []

def padding (bytes : List UInt8) : Nat := (3-bytes.length%3)%3

def btoa (bytes : List UInt8) : Text := (sextets bytes).map letter ++ List.replicate (padding bytes) '='

def isAsciiWhitespace (c : Char) : Bool := c = ' ' || c = '\t' || c = '\n' || c.toNat = 12 || c = '\r'

def unpadded (data : Text) : Text :=
  match data.reverse with
  | '=' :: '=' :: rest => rest.reverse
  | '=' :: rest => rest.reverse
  | _ => data

-- The forgiving decoder of the platform: none where it throws.
def atob (data : Text) : Option (List UInt8) :=
  let data := data.filter fun c => !isAsciiWhitespace c
  let data := if data.length%4 = 0 then unpadded data else data
  if data.length%4 = 1 then none else (data.mapM value).map octets

example : btoa [77,97,110,33] = "TWFuIQ==".toList := by decide

section RoundTrip

theorem value_letter : ∀ n < 64, value (letter n) = some n := by decide

theorem letter_plain : ∀ n < 64, isAsciiWhitespace (letter n) = false ∧ letter n ≠ '=' := by decide

theorem sextets_small (bytes : List UInt8) : ∀ n ∈ sextets bytes, n < 64 := by
  fun_induction sextets bytes with
  | case1 a b c rest ih =>
    have one := a.toNat_lt
    have two := b.toNat_lt
    have three := c.toNat_lt
    refine List.forall_mem_cons.mpr ⟨by omega,List.forall_mem_cons.mpr ⟨by omega,List.forall_mem_cons.mpr ⟨by omega,?_⟩⟩⟩
    exact List.forall_mem_cons.mpr ⟨by omega,ih⟩
  | case2 a b =>
    have one := a.toNat_lt
    have two := b.toNat_lt
    simp
    omega
  | case3 a =>
    have one := a.toNat_lt
    simp
    omega
  | case4 =>
    intro n member
    cases member

theorem octets_sextets (bytes : List UInt8) : octets (sextets bytes) = bytes := by
  have byte (a : UInt8) {n : Nat} (same : n = a.toNat) : UInt8.ofNat n = a := by rw [same,UInt8.ofNat_toNat]
  fun_induction sextets bytes with
  | case1 a b c rest ih =>
    have two := b.toNat_lt
    have three := c.toNat_lt
    rw [octets,ih,byte a (by omega),byte b (by omega),byte c (by omega)]
  | case2 a b =>
    have two := b.toNat_lt
    rw [octets,byte a (by omega),byte b (by omega)]
  | case3 a => rw [octets,byte a (by omega)]
  | case4 => rfl

theorem sextets_length (bytes : List UInt8) : ((sextets bytes).length+padding bytes)%4 = 0 := by
  fun_induction sextets bytes with
  | case1 a b c rest ih =>
    simp only [padding,List.length_cons] at ih ⊢
    omega
  | case2 a b => simp [padding]
  | case3 a => simp [padding]
  | case4 => rfl

theorem padding_small (bytes : List UInt8) : padding bytes ≤ 2 := by
  unfold padding
  omega

theorem letters_plain (bytes : List UInt8) : ∀ c ∈ (sextets bytes).map letter, isAsciiWhitespace c = false ∧ c ≠ '=' := by
  rw [List.forall_mem_map]
  exact fun n member => letter_plain n (sextets_small bytes n member)

theorem letters_read (bytes : List UInt8) : ((sextets bytes).map letter).mapM value = some (sextets bytes) := by
  have small := sextets_small bytes
  generalize sextets bytes = values at small
  induction values with
  | nil => rfl
  | cons n rest ih =>
    obtain ⟨first,others⟩ := List.forall_mem_cons.mp small
    simp [value_letter n first,ih others]

theorem unpadded_front {front : Text} (plain : ∀ c ∈ front, c ≠ '=') (small : n ≤ 2) : unpadded (front ++ List.replicate n '=') = front := by
  have shape : (front ++ List.replicate n '=').reverse = List.replicate n '=' ++ front.reverse := by
    rw [List.reverse_append,List.reverse_replicate]
  have first : ∀ c rest, front.reverse = c :: rest → c ≠ '=' := by
    intro c rest same
    exact plain c (List.mem_reverse.mp (same ▸ List.mem_cons_self))
  unfold unpadded
  rw [shape]
  match n,small with
  | 0,_ =>
    simp only [List.replicate_zero,List.nil_append,List.append_nil]
    split
    · rename_i rest same
      exact absurd rfl (first _ _ same)
    · rename_i rest _ same
      exact absurd rfl (first _ _ same)
    · rfl
  | 1,_ =>
    simp only [List.replicate_one,List.singleton_append]
    split
    · rename_i rest same
      exact absurd rfl (first _ _ (List.cons.inj same).2)
    · rename_i rest _ same
      rw [← (List.cons.inj same).2,List.reverse_reverse]
    · rename_i other
      exact absurd rfl (other front.reverse)
  | 2,_ =>
    rw [show List.replicate 2 '=' ++ front.reverse = '=' :: '=' :: front.reverse from rfl]
    exact List.reverse_reverse front

-- Every list of bytes is read back from its letters.
theorem atob_btoa (bytes : List UInt8) : atob (btoa bytes) = some bytes := by
  have kept : (btoa bytes).filter (fun c => !isAsciiWhitespace c) = btoa bytes := by
    refine List.filter_eq_self.mpr ?_
    refine List.forall_mem_append.mpr ⟨?_,?_⟩
    · intro c member
      simp [(letters_plain bytes c member).1]
    · intro c member
      rw [List.eq_of_mem_replicate member]
      rfl
  have whole : (btoa bytes).length%4 = 0 := by
    rw [btoa,List.length_append,List.length_map,List.length_replicate]
    exact sextets_length bytes
  have more : ((sextets bytes).map letter).length%4 ≠ 1 := by
    have lengths := sextets_length bytes
    have small := padding_small bytes
    rw [List.length_map]
    omega
  have front : unpadded (btoa bytes) = (sextets bytes).map letter :=
    unpadded_front (fun c member => (letters_plain bytes c member).2) (padding_small bytes)
  simp only [atob,kept,whole,if_true,front,if_neg more,letters_read,Option.map_some,octets_sextets]

end RoundTrip

end Base64
