import AdblockCompiler.Schedules

-- Asynchronous computations over fields that they share. What a computation
-- does between two of its awaits is not interrupted; anything else may happen
-- between any two steps.
namespace Promises

-- all is Promise.all with what is done once all of its computations are
-- fulfilled, or one of them is rejected.
inductive Promise (σ ε α : Type) where
  | settled (result : Except ε α)
  | awaiting (write : σ → σ) (resume : σ → Promise σ ε α)
  | all (promises : List (Promise σ ε α)) (fulfilled : List α → Promise σ ε α) (rejected : ε → Promise σ ε α)

-- outside is code that is not part of the computation and sets the fields.
inductive Event (σ : Type) where
  | resume
  | fulfilled
  | rejected (i : Nat)
  | party (i : Nat) (event : Event σ)
  | outside (fields : σ)

def Event.own : Event σ → Bool
  | .outside _ => false
  | .party _ event => event.own
  | _ => true

def Event.cost (event : Event σ) : Nat := if event.own then 1 else 0

def Promise.value : Promise σ ε α → Option α
  | .settled result => result.toOption
  | _ => none

def Promise.error : Promise σ ε α → Option ε
  | .settled (.error error) => some error
  | _ => none

def step (state : σ × Promise σ ε α) : Event σ → Option (σ × Promise σ ε α)
  | .outside fields => some (fields,state.2)
  | .resume =>
    match state.2 with
    | .awaiting write resume => some (write state.1,resume state.1)
    | _ => none
  | .fulfilled =>
    match state.2 with
    | .all promises fulfilled _ => (promises.mapM Promise.value).map fun values => (state.1,fulfilled values)
    | _ => none
  | .rejected i =>
    match state.2 with
    | .all promises _ rejected => (promises[i]?.bind Promise.error).map fun error => (state.1,rejected error)
    | _ => none
  | .party i event =>
    match state.2 with
    | .all promises fulfilled rejected =>
      promises[i]?.bind fun promise => (step (state.1,promise) event).map fun after => (after.1,.all (promises.set i after.2) fulfilled rejected)
    | _ => none

-- then(fulfilled,rejected)
def Promise.thenDo (fulfilled : α → Promise σ ε α) (rejected : ε → Promise σ ε α) : Promise σ ε α → Promise σ ε α
  | .settled (.ok value) => fulfilled value
  | .settled (.error error) => rejected error
  | .awaiting write resume => .awaiting write fun fields => (resume fields).thenDo fulfilled rejected
  | .all promises next failed => .all promises (fun values => (next values).thenDo fulfilled rejected) fun error => (failed error).thenDo fulfilled rejected

def Promise.pause : Nat → Promise σ ε α → Promise σ ε α
  | 0,promise => promise
  | n+1,promise => .awaiting id fun _ => promise.pause n

-- One computation of a Promise.all, what it comes to and how many steps it
-- takes at most.
structure Party (σ ε α : Type) where
  promise : Promise σ ε α
  value : Option α
  bound : Nat

-- Whatever the fields are when it goes on, the computation comes to this value,
-- none where it is rejected, within this number of its own steps.
inductive Comes {σ ε α : Type} : Promise σ ε α → Option α → Nat → Prop where
  | settled (result : Except ε α) (bound : Nat) : Comes (.settled result) result.toOption bound
  | awaiting {write : σ → σ} {resume : σ → Promise σ ε α} {value : Option α} {bound : Nat}
      (each : ∀ fields, Comes (resume fields) value bound) : Comes (.awaiting write resume) value (bound+1)
  | all {fulfilled : List α → Promise σ ε α} {rejected : ε → Promise σ ε α} {value : Option α} {bound rest : Nat}
      (parties : List (Party σ ε α)) (each : ∀ party ∈ parties, Comes party.promise party.value party.bound)
      (joined : ∀ values, parties.map Party.value = values.map some → Comes (fulfilled values) value rest)
      (failed : none ∈ parties.map Party.value → ∀ error, Comes (rejected error) value rest)
      (enough : Schedules.total Party.bound parties + rest < bound) :
      Comes (.all (parties.map Party.promise) fulfilled rejected) value bound

section Steps
variable {promise : Promise σ ε α}

theorem set_same {items : List β} (found : items[i]? = some item) : items.set i item = items := by
  obtain ⟨inside,rfl⟩ := List.getElem?_eq_some_iff.mp found
  exact List.set_getElem_self inside

theorem comes_settled (comes : Comes (.settled result : Promise σ ε α) value bound) : result.toOption = value := by
  cases comes
  rfl

theorem comes_weaken (comes : Comes promise value bound) (more : bound ≤ larger) : Comes promise value larger := by
  induction comes generalizing larger with
  | settled result => exact .settled result larger
  | awaiting each ih =>
    obtain ⟨n,rfl⟩ : ∃ n, larger = n+1 := ⟨larger-1,by omega⟩
    exact .awaiting fun fields => ih fields (Nat.le_of_succ_le_succ more)
  | all parties each joined failed enough => exact .all parties each joined failed (Nat.lt_of_lt_of_le enough more)

theorem comes_value (comes : Comes promise value bound) (found : promise.value = some a) : value = some a := by
  cases promise with
  | settled result => exact (comes_settled comes).symm.trans found
  | awaiting write resume => cases found
  | all promises fulfilled rejected => cases found

theorem comes_error (comes : Comes promise value bound) (found : promise.error = some error) : value = none := by
  cases promise with
  | settled result =>
    cases result with
    | error e => exact (comes_settled comes).symm
    | ok a => cases found
  | awaiting write resume => cases found
  | all promises fulfilled rejected => cases found

theorem mapM_exists {f : β → Option γ} {items : List β} (each : ∀ item ∈ items, ∃ c, f item = some c) :
    ∃ results, items.mapM f = some results := by
  induction items with
  | nil => exact ⟨[],rfl⟩
  | cons item items ih =>
    obtain ⟨c,first⟩ := each item List.mem_cons_self
    obtain ⟨rest,others⟩ := ih fun other member => each other (List.mem_cons_of_mem _ member)
    exact ⟨c :: rest,by simp [List.mapM_cons,first,others]⟩

-- All of them are fulfilled with what they come to.
theorem parties_values {parties : List (Party σ ε α)} (each : ∀ party ∈ parties, Comes party.promise party.value party.bound)
    (gathered : (parties.map Party.promise).mapM Promise.value = some values) :
    parties.map Party.value = values.map some := by
  induction parties generalizing values with
  | nil =>
    cases gathered
    rfl
  | cons party parties ih =>
    rw [List.map_cons,List.mapM_cons] at gathered
    obtain ⟨a,first,after⟩ := Option.bind_eq_some_iff.mp gathered
    obtain ⟨rest,others,last⟩ := Option.bind_eq_some_iff.mp after
    cases last
    have tail := ih (fun other member => each other (List.mem_cons_of_mem _ member)) others
    rw [List.map_cons,List.map_cons,tail,comes_value (each party List.mem_cons_self) first]

-- A step of the computation takes one from its bound, and nothing takes away
-- what it comes to.
theorem step_comes (comes : Comes promise value bound) (stepped : step (fields,promise) event = some (after,next)) :
    ∃ left, left + event.cost ≤ bound ∧ Comes next value left := by
  induction event generalizing promise value bound after next with
  | outside written =>
    cases stepped
    exact ⟨bound,Nat.le_refl _,comes⟩
  | resume =>
    cases comes with
    | settled result bound => cases stepped
    | awaiting each =>
      cases stepped
      exact ⟨_,Nat.le_refl _,each fields⟩
    | all parties each joined failed enough => cases stepped
  | fulfilled =>
    cases comes with
    | settled result bound => cases stepped
    | awaiting each => cases stepped
    | all parties each joined failed enough =>
      obtain ⟨values,gathered,same⟩ := Option.map_eq_some_iff.mp stepped
      cases same
      exact ⟨_,by simp only [Event.cost,Event.own,if_true]; omega,joined values (parties_values each gathered)⟩
  | rejected i =>
    cases comes with
    | settled result bound => cases stepped
    | awaiting each => cases stepped
    | all parties each joined failed enough =>
      obtain ⟨error,found,same⟩ := Option.map_eq_some_iff.mp stepped
      cases same
      obtain ⟨promise,listed,thrown⟩ := Option.bind_eq_some_iff.mp found
      rw [List.getElem?_map] at listed
      obtain ⟨party,at_,rfl⟩ := Option.map_eq_some_iff.mp listed
      have member := List.mem_of_getElem? at_
      have none_ : none ∈ parties.map Party.value :=
        List.mem_map.mpr ⟨party,member,comes_error (each party member) thrown⟩
      exact ⟨_,by simp only [Event.cost,Event.own,if_true]; omega,failed none_ error⟩
  | party i event ih =>
    cases comes with
    | settled result bound => cases stepped
    | awaiting each => cases stepped
    | all parties each joined failed enough =>
      obtain ⟨promise,listed,stepped⟩ := Option.bind_eq_some_iff.mp stepped
      obtain ⟨moved,inner,same⟩ := Option.map_eq_some_iff.mp stepped
      cases same
      rw [List.getElem?_map] at listed
      obtain ⟨party,at_,rfl⟩ := Option.map_eq_some_iff.mp listed
      obtain ⟨left,less,again⟩ := ih (each party (List.mem_of_getElem? at_)) inner
      let new : Party _ _ _ := ⟨moved.2,party.value,left⟩
      have promises : (parties.map Party.promise).set i moved.2 = (parties.set i new).map Party.promise := by
        rw [List.map_set]
      have values : (parties.set i new).map Party.value = parties.map Party.value := by
        rw [List.map_set]
        exact set_same (by rw [List.getElem?_map,at_]; rfl)
      have sum : Schedules.total Party.bound (parties.set i new) + party.bound = Schedules.total Party.bound parties + left :=
        Schedules.total_set Party.bound at_ new
      have kept : ∀ other ∈ parties.set i new, Comes other.promise other.value other.bound := Schedules.forall_set each again
      have cost : Event.cost (.party i event) = event.cost := rfl
      rw [← values] at joined failed
      rw [promises,cost]
      refine ⟨_,?_,.all (parties.set i new) kept joined failed (Nat.lt_succ_self _)⟩
      omega

-- A computation that is not settled has a step to take.
theorem step_exists (comes : Comes promise value bound) (fields : σ) :
    (∃ result, promise = .settled result) ∨ ∃ event after, event.own = true ∧ step (fields,promise) event = some after := by
  induction comes with
  | settled result => exact .inl ⟨result,rfl⟩
  | awaiting each => exact .inr ⟨.resume,_,rfl,rfl⟩
  | @all fulfilled rejected value bound rest parties each joined failed enough ih =>
    right
    by_cases waiting : ∃ party ∈ parties, ∀ result, party.promise ≠ .settled result
    · obtain ⟨party,member,open_⟩ := waiting
      obtain ⟨i,found⟩ := List.mem_iff_getElem?.mp member
      rcases ih party member with done | moves
      · obtain ⟨result,same⟩ := done
        exact absurd same (open_ result)
      · obtain ⟨event,after,own,stepped⟩ := moves
        refine ⟨.party i event,(after.1,.all ((parties.map Party.promise).set i after.2) fulfilled rejected),own,?_⟩
        rw [step]
        simp only [List.getElem?_map,found,Option.map_some,Option.bind_some,stepped]
    · by_cases refused : ∃ party ∈ parties, ∃ error, party.promise.error = some error
      · obtain ⟨party,member,error,thrown⟩ := refused
        obtain ⟨i,found⟩ := List.mem_iff_getElem?.mp member
        refine ⟨.rejected i,(fields,rejected error),rfl,?_⟩
        rw [step]
        simp only [List.getElem?_map,found,Option.map_some,Option.bind_some,thrown]
      · have all_ : ∀ promise ∈ parties.map Party.promise, ∃ a, promise.value = some a := by
          intro promise member
          obtain ⟨party,inside,rfl⟩ := List.mem_map.mp member
          by_contra missing
          apply waiting
          refine ⟨party,inside,?_⟩
          intro result same
          cases result with
          | ok a => exact missing ⟨a,by rw [same]; rfl⟩
          | error e => exact refused ⟨party,inside,e,by rw [same]; rfl⟩
        obtain ⟨values,gathered⟩ := mapM_exists all_
        refine ⟨.fulfilled,(fields,fulfilled values),rfl,?_⟩
        rw [step]
        simp only [gathered,Option.map_some]

-- The same for runs: their own steps are bounded, and what they settle with is
-- what the computation comes to.
theorem run_comes (comes : Comes promise value bound)
    (ran : Schedules.run step (fields,promise) events = some (after,next)) :
    ∃ left, left + Schedules.total Event.cost events ≤ bound ∧ Comes next value left := by
  induction events generalizing fields promise bound with
  | nil =>
    cases ran
    exact ⟨bound,Nat.le_refl _,comes⟩
  | cons event events ih =>
    obtain ⟨moved,stepped,rest⟩ := Schedules.run_cons.mp ran
    obtain ⟨left,less,again⟩ := step_comes comes stepped
    obtain ⟨last,fewer,final⟩ := ih again rest
    refine ⟨last,?_,final⟩
    rw [Schedules.total,List.map_cons,List.sum_cons]
    unfold Schedules.total at fewer
    omega

theorem run_settles (comes : Comes promise value bound) (fields : σ) :
    ∃ events after result, Schedules.run step (fields,promise) events = some (after,.settled result) := by
  induction bound using Nat.strong_induction_on generalizing promise fields with
  | _ bound ih =>
    rcases step_exists comes fields with done | moves
    · obtain ⟨result,rfl⟩ := done
      exact ⟨[],fields,result,rfl⟩
    · obtain ⟨event,after,own,stepped⟩ := moves
      obtain ⟨left,less,again⟩ := step_comes comes stepped
      have smaller : left < bound := by
        rw [Event.cost,if_pos own] at less
        omega
      obtain ⟨events,last,result,ran⟩ := ih left smaller again after.1
      exact ⟨event :: events,last,result,Schedules.run_cons.mpr ⟨after,stepped,ran⟩⟩

end Steps

-- What is left of the bounds.
def Settles (promise : Promise σ ε α) (value : Option α) : Prop := ∃ bound, Comes promise value bound

section Rules
variable {promise : Promise σ ε α}

theorem settles_settled (result : Except ε α) : Settles (σ := σ) (.settled result) result.toOption := ⟨0,.settled result 0⟩

theorem comes_then (comes : Comes promise value bound)
    (fulfilled : ∀ a, value = some a → Comes (onFulfilled a) outcome rest)
    (rejected : value = none → ∀ error, Comes (onRejected error) outcome rest) :
    Comes (promise.thenDo onFulfilled onRejected) outcome (bound+rest) := by
  induction comes with
  | settled result bound =>
    cases result with
    | ok a => exact comes_weaken (fulfilled a rfl) (Nat.le_add_left rest bound)
    | error e => exact comes_weaken (rejected rfl e) (Nat.le_add_left rest bound)
  | @awaiting write resume value bound each ih =>
    rw [Nat.add_right_comm]
    exact .awaiting fun fields => ih fields fulfilled rejected
  | @all next failing value bound steps parties each joined failed enough ih ihJoined ihFailed =>
    have more : Schedules.total Party.bound parties + (steps+rest) < bound+rest := by omega
    refine .all parties each ?_ ?_ more
    · intro values gathered
      exact ihJoined values gathered fulfilled rejected
    · intro refused error
      exact ihFailed refused error fulfilled rejected

theorem settles_then (settles : Settles promise value)
    (fulfilled : ∀ a, value = some a → Settles (onFulfilled a) outcome)
    (rejected : value = none → ∃ bound, ∀ error, Comes (onRejected error) outcome bound) :
    Settles (promise.thenDo onFulfilled onRejected) outcome := by
  obtain ⟨bound,comes⟩ := settles
  cases value with
  | none =>
    obtain ⟨rest,each⟩ := rejected rfl
    exact ⟨bound+rest,comes_then comes (fun a same => by cases same) fun _ => each⟩
  | some a =>
    obtain ⟨rest,one⟩ := fulfilled a rfl
    refine ⟨bound+rest,comes_then comes ?_ fun same => by cases same⟩
    intro other same
    cases same
    exact one

theorem settles_pause (n : Nat) (settles : Settles promise value) : Settles (promise.pause n) value := by
  induction n with
  | zero => exact settles
  | succ n ih =>
    obtain ⟨bound,comes⟩ := ih
    exact ⟨bound+1,.awaiting fun _ => comes⟩

-- A section whose outcome the fields do not decide.
theorem settles_awaiting (same : ∀ fields, resume fields = promise) (settles : Settles promise value) :
    Settles (.awaiting write resume) value := by
  obtain ⟨bound,comes⟩ := settles
  exact ⟨bound+1,.awaiting fun fields => same fields ▸ comes⟩

theorem settles_parties (settles : List.Forall₂ Settles promises values) :
    ∃ parties : List (Party σ ε α), parties.map Party.promise = promises ∧ parties.map Party.value = values ∧
      ∀ party ∈ parties, Comes party.promise party.value party.bound := by
  induction settles with
  | nil => exact ⟨[],rfl,rfl,fun _ member => by cases member⟩
  | @cons promise value promises values first rest ih =>
    obtain ⟨bound,comes⟩ := first
    obtain ⟨parties,rfl,rfl,each⟩ := ih
    exact ⟨⟨promise,value,bound⟩ :: parties,rfl,rfl,List.forall_mem_cons.mpr ⟨comes,each⟩⟩

theorem all_fulfilled {values : List (Option β)} (fulfilled : none ∉ values) : ∃ gathered : List β, values = gathered.map some := by
  induction values with
  | nil => exact ⟨[],rfl⟩
  | cons value values ih =>
    obtain ⟨gathered,rfl⟩ := ih fun member => fulfilled (List.mem_cons_of_mem value member)
    cases value with
    | none => exact absurd List.mem_cons_self fulfilled
    | some b => exact ⟨b :: gathered,rfl⟩

theorem settles_all {promises : List (Promise σ ε α)} {values : List (Option α)} (settles : List.Forall₂ Settles promises values)
    (joined : ∀ gathered, values = gathered.map some → Settles (fulfilled gathered) value)
    (failed : none ∈ values → ∃ bound, ∀ error, Comes (rejected error) value bound) :
    Settles (.all promises fulfilled rejected) value := by
  obtain ⟨parties,rfl,rfl,each⟩ := settles_parties settles
  by_cases refused : none ∈ parties.map Party.value
  · obtain ⟨bound,later⟩ := failed refused
    have never (gathered : List α) (same : parties.map Party.value = gathered.map some) : Comes (fulfilled gathered) value bound := by
      rw [same] at refused
      obtain ⟨_,_,missing⟩ := List.mem_map.mp refused
      cases missing
    exact ⟨_,.all parties each never (fun _ => later) (Nat.lt_succ_self _)⟩
  · obtain ⟨gathered,same⟩ := all_fulfilled refused
    obtain ⟨bound,later⟩ := joined gathered same
    have only (others : List α) (again : parties.map Party.value = others.map some) : Comes (fulfilled others) value bound := by
      have equal : others = gathered := List.map_injective_iff.mpr (Option.some_injective α) (again.symm.trans same)
      exact equal ▸ later
    exact ⟨_,.all parties each only (fun inside => absurd inside refused) (Nat.lt_succ_self _)⟩

end Rules

end Promises
