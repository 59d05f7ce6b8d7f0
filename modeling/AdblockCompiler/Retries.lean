import Mathlib

-- A loop of numbered attempts, `for (n = 0; n <= limit; n++)`. An attempt
-- settles the call, or leaves its error and what is waited after it and lets
-- the loop go on; past the limit the error left last is what is thrown.
namespace Retries

inductive Turn (ε ω α : Type) where
  | settled (result : Except ε α)
  | failed (error : ε) (wait : ω)

structure Outcome (ε ω α : Type) where
  attempts : Nat
  waits : List ω
  result : Except ε α

-- How many attempts the bound of the loop admits.
def turns (limit : ℚ) : Nat := (⌊limit⌋+1).toNat

variable {ε ω α : Type} {limit : ℚ} {n room k : Nat}

theorem lt_turns : n < turns limit ↔ (n : ℚ) ≤ limit := by
  have floors : (n : Int) ≤ ⌊limit⌋ ↔ (n : ℚ) ≤ limit := by
    rw [Int.le_floor,Int.cast_natCast]
  rw [← floors,turns]
  omega

theorem turns_bound (nonneg : 0 ≤ limit) : (turns limit : ℚ) ≤ limit+1 := by
  have first : 0 < turns limit := lt_turns.mpr (by simpa using nonneg)
  obtain ⟨last,same⟩ := Nat.exists_eq_succ_of_ne_zero (Nat.pos_iff_ne_zero.mp first)
  have bound : (last : ℚ) ≤ limit := lt_turns.mp (by omega)
  rw [same,Nat.cast_succ]
  linarith

section Loop
variable (turn : Nat → Turn ε ω α) (spent : Option ε → ε)

def loop : Nat → Nat → Option ε → Outcome ε ω α
  | 0,n,last => ⟨n,[],.error (spent last)⟩
  | room+1,n,_ =>
    match turn n with
    | .settled result => ⟨n+1,[],result⟩
    | .failed error wait =>
      let later := loop room (n+1) (some error)
      { later with waits := wait :: later.waits }

def retry (limit : ℚ) : Outcome ε ω α := loop turn spent (turns limit) 0 none

variable {turn spent} {last : Option ε}

def Fails : Turn ε ω α → Prop
  | .settled _ => False
  | .failed _ _ => True

theorem not_fails {one : Turn ε ω α} (settles : ¬Fails one) : ∃ result, one = .settled result := by
  cases one with
  | settled result => exact ⟨result,rfl⟩
  | failed error wait => exact absurd trivial settles

theorem loop_settles (settles : turn n = .settled result) : loop turn spent (room+1) n last = ⟨n+1,[],result⟩ := by
  rw [loop,settles]

theorem loop_fails (fails : turn n = .failed error wait) : loop turn spent (room+1) n last =
    { loop turn spent room (n+1) (some error) with waits := wait :: (loop turn spent room (n+1) (some error)).waits } := by
  rw [loop,fails]

-- The error left by the attempt before n, if there was one.
def left (turn : Nat → Turn ε ω α) : Nat → Option ε
  | 0 => none
  | n+1 =>
    match turn n with
    | .settled _ => none
    | .failed error _ => some error

theorem loop_stops (failing : ∀ i, n ≤ i → i < k → Fails (turn i)) (settles : turn k = .settled result) (reached : n ≤ k)
    (within : k < n+room) : (loop turn spent room n last).attempts = k+1 ∧ (loop turn spent room n last).result = result := by
  induction room generalizing n last with
  | zero => exact absurd within (Nat.not_lt.mpr reached)
  | succ room ih =>
    rcases Nat.eq_or_lt_of_le reached with rfl | later
    · rw [loop_settles settles]
      exact ⟨rfl,rfl⟩
    · have fails := failing n (Nat.le_refl n) later
      cases one : turn n with
      | settled other =>
        rw [one] at fails
        exact fails.elim
      | failed error wait =>
        rw [loop_fails one]
        exact ih (fun i above below => failing i (Nat.le_of_succ_le above) below) later (by omega)

theorem loop_ends (failing : ∀ i, n ≤ i → i < n+room → Fails (turn i)) (before : left turn n = last) :
    (loop turn spent room n last).attempts = n+room ∧
      (loop turn spent room n last).result = .error (spent (left turn (n+room))) := by
  induction room generalizing n last with
  | zero =>
    rw [Nat.add_zero,before]
    exact ⟨rfl,rfl⟩
  | succ room ih =>
    have fails := failing n (Nat.le_refl n) (by omega)
    cases one : turn n with
    | settled other =>
      rw [one] at fails
      exact fails.elim
    | failed error wait =>
      rw [loop_fails one]
      have next := ih (fun i above below => failing i (Nat.le_of_succ_le above) (by omega)) (show left turn (n+1) = some error by rw [left,one])
      rwa [Nat.succ_add_eq_add_succ] at next

-- A wait belongs to an attempt that failed after others that failed.
theorem mem_waits : wait ∈ (loop turn spent room n last).waits ↔
    ∃ k error, n ≤ k ∧ k < n+room ∧ (∀ i, n ≤ i → i < k → Fails (turn i)) ∧ turn k = .failed error wait := by
  induction room generalizing n last with
  | zero =>
    constructor
    · intro member
      cases member
    · rintro ⟨k,error,above,below,-⟩
      omega
  | succ room ih =>
    cases one : turn n with
    | settled result =>
      rw [loop_settles one]
      constructor
      · intro member
        cases member
      · rintro ⟨k,error,above,below,failing,fails⟩
        rcases Nat.eq_or_lt_of_le above with rfl | later
        · exact nomatch one.symm.trans fails
        · have first := failing n (Nat.le_refl n) later
          rw [one] at first
          exact first.elim
    | failed error own =>
      rw [loop_fails one]
      simp only [List.mem_cons,ih]
      constructor
      · rintro (rfl | ⟨k,other,above,below,failing,fails⟩)
        · exact ⟨n,error,Nat.le_refl n,by omega,fun i low high => absurd high (Nat.not_lt.mpr low),one⟩
        · refine ⟨k,other,Nat.le_of_succ_le above,by omega,?_,fails⟩
          intro i low high
          rcases Nat.eq_or_lt_of_le low with rfl | later
          · rw [one]
            trivial
          · exact failing i later high
      · rintro ⟨k,other,above,below,failing,fails⟩
        rcases Nat.eq_or_lt_of_le above with rfl | later
        · exact .inl (by cases one.symm.trans fails; rfl)
        · exact .inr ⟨k,other,later,by omega,fun i low high => failing i (Nat.le_of_succ_le low) high,fails⟩

end Loop

section Retry
variable {turn : Nat → Turn ε ω α} {spent : Option ε → ε}

theorem retry_stops (failing : ∀ i < k, Fails (turn i)) (settles : turn k = .settled result) (within : (k : ℚ) ≤ limit) :
    (retry turn spent limit).attempts = k+1 ∧ (retry turn spent limit).result = result :=
  loop_stops (fun i _ below => failing i below) settles (Nat.zero_le k) (by simpa using lt_turns.mpr within)

theorem retry_ends (failing : ∀ i < turns limit, Fails (turn i)) :
    (retry turn spent limit).attempts = turns limit ∧ (retry turn spent limit).result = .error (spent (left turn (turns limit))) := by
  have ends : (loop turn spent (turns limit) 0 none).attempts = 0+turns limit ∧ _ :=
    loop_ends (fun i _ below => failing i (by simpa using below)) rfl
  rwa [Nat.zero_add] at ends

theorem retry_waits : wait ∈ (retry turn spent limit).waits ↔
    ∃ (k : Nat) (error : ε), (k : ℚ) ≤ limit ∧ (∀ i < k, Fails (turn i)) ∧ turn k = .failed error wait := by
  rw [retry,mem_waits]
  simp only [Nat.zero_le,true_and,forall_true_left,Nat.zero_add,lt_turns]

-- Either an attempt within the limit is the first that settles the call, or
-- every attempt within the limit fails.
theorem turns_cases (turn : Nat → Turn ε ω α) (limit : ℚ) :
    (∃ (k : Nat) (result : Except ε α), (k : ℚ) ≤ limit ∧ (∀ i < k, Fails (turn i)) ∧ turn k = .settled result) ∨ ∀ i < turns limit, Fails (turn i) := by
  by_cases all : ∀ i < turns limit, Fails (turn i)
  · exact .inr all
  · left
    push Not at all
    classical
    obtain ⟨within,settles⟩ := Nat.find_spec all
    obtain ⟨result,settles⟩ := not_fails settles
    refine ⟨Nat.find all,result,lt_turns.mp within,?_,settles⟩
    intro i earlier
    by_contra stops
    exact Nat.find_min all earlier ⟨earlier.trans within,stops⟩

theorem retry_bound : (retry turn spent limit).attempts ≤ turns limit := by
  rcases turns_cases turn limit with ⟨k,result,within,failing,settles⟩ | failing
  · rw [(retry_stops failing settles within).1]
    exact lt_turns.mpr within
  · rw [(retry_ends failing).1]

end Retry

end Retries
