import AdblockCompiler.JsonText
import AdblockCompiler.Schedules

-- CompilationCoordinator, the Durable Object that hands out one lock for each
-- cache key, and the Workers that run coordinateCompilationWithDO against it.
namespace AdblockCompiler.Coordinator
open JsText JsonText Schedules

-- Bodies are kept as the values they spell: ρ those of /complete, JSON those of
-- /fail. The text of a body is never empty.
structure CompilationState (ρ : Type) where
  inFlight : Bool
  result : Option ρ
  error : Option Json

def unlocked : CompilationState ρ := ⟨false,none,none⟩

def handleAcquire (state : CompilationState ρ) : Bool × CompilationState ρ :=
  if state.inFlight then (false,state) else (true,⟨true,none,none⟩)

-- handleComplete and handleFail check inFlight, read the body of the request,
-- and only then store it: other requests come in between.
inductive Release (ρ : Type) where
  | complete (result : ρ)
  | fail (error : Json)

def store : Release ρ → CompilationState ρ
  | .complete result => ⟨false,some result,none⟩
  | .fail error => ⟨false,none,some error⟩

-- One round of the polling loop of handleWait: an answer, or another round.
inductive WaitResponse (ρ : Type) where
  | ok (result : ρ)
  | notOk (status : Nat) (error : Json)

def poll (state : CompilationState ρ) : Option (WaitResponse ρ) :=
  match state.result,state.error with
  | some result,_ => some (.ok result)
  | none,some error => some (.notOk 500 error)
  | none,none =>
    if state.inFlight then none
    else some (.notOk 500 (.string "Compilation completed but no result available".toList))

def timeout : WaitResponse ρ :=
  .notOk 504 (.string "Wait timeout - compilation did not complete within 30 seconds".toList)

-- String(value), as the constructor of Error takes its message.
mutual
def toText : Json → Text
  | .null => "null".toList
  | .bool truth => if truth then "true".toList else "false".toList
  | .number value => value.text
  | .string text => text
  | .array items => join (toTexts items)
  | .object _ => "[object Object]".toList
termination_by structural value => value
def toTexts : List Json → List Text
  | [] => []
  | .null :: rest => [] :: toTexts rest
  | item :: rest => toText item :: toTexts rest
termination_by structural items => items
end

-- What `error || '…'` goes by.
def truthy : Json → Bool
  | .null => false
  | .bool truth => truth
  | .number value => value.text ≠ "0".toList
  | .string text => text ≠ []
  | .array _ | .object _ => true

def waitError (error : Json) : Thrown :=
  if truthy error then toText error else "Failed to wait for compilation result".toList

def failBody (message : Text) : Json := .object [("error".toList,.string message)]

-- Where a Worker stands in coordinateCompilationWithDO. The numbers are those
-- of the message whose answer it awaits.
inductive Phase (ρ : Type) where
  | acquiring
  | acquired (granted : Bool)
  | waiting
  | compiling
  | completing (message : Nat) (result : ρ)
  | failing (message : Nat) (error : Thrown)
  | returned (result : ρ)
  | threw (error : Thrown)

-- A /complete or /fail request: not begun yet, past its check, or done with.
inductive Stage where
  | sent | checked | done
  deriving DecidableEq, Repr

structure Message (ρ : Type) where
  owner : Nat
  release : Release ρ
  stage : Stage

-- holder is history: the Worker whose /acquire took the lock last.
structure State (ρ : Type) where
  object : CompilationState ρ
  holder : Option Nat
  workers : List (Phase ρ)
  messages : List (Message ρ)

def start : State ρ := ⟨unlocked,none,[],[]⟩

-- A fetch settles with an answer or with a failure of its own; what it asked for
-- may have taken effect all the same.
inductive Event (ρ : Type) where
  | call
  | acquire (i : Nat)
  | acquireSettles (i : Nat) (failure : Option Thrown)
  | polls (i : Nat)
  | timesOut (i : Nat)
  | waitFails (i : Nat) (failure : Thrown)
  | compiled (i : Nat) (outcome : Except Thrown ρ)
  | begins (m : Nat)
  | stores (m : Nat)
  | settles (i : Nat) (failure : Option Thrown)

def stage (messages : List (Message ρ)) (m : Nat) : Stage :=
  match messages[m]? with
  | some message => message.stage
  | none => .done

def setStage (messages : List (Message ρ)) (m : Nat) (stage : Stage) : List (Message ρ) :=
  messages.modify m fun message => { message with stage := stage }

-- A request whose fetch failed before it began is never begun.
def abandon (messages : List (Message ρ)) (m : Nat) : List (Message ρ) :=
  if stage messages m = .sent then setStage messages m .done else messages

-- What a Worker makes of an answer to /wait.
def waited : WaitResponse ρ → Phase ρ
  | .ok result => .returned result
  | .notOk _ error => .threw (waitError error)

-- Sending a /complete or /fail request, numbered by its place.
def send (s : State ρ) (i : Nat) (release : Release ρ) (messages : List (Message ρ)) (phase : Nat → Phase ρ) : State ρ :=
  { s with
    workers := s.workers.set i (phase messages.length)
    messages := messages ++ [⟨i,release,.sent⟩] }

def move (s : State ρ) (i : Nat) (phase : Phase ρ) : State ρ := { s with workers := s.workers.set i phase }

def workerStep (s : State ρ) (i : Nat) (phase : Phase ρ) : Event ρ → Option (State ρ)
  | .acquire _ =>
    match phase with
    | .acquiring =>
      let (granted,object) := handleAcquire s.object
      some { s with
        object := object
        holder := if granted then some i else s.holder
        workers := s.workers.set i (.acquired granted) }
    | _ => none
  | .acquireSettles _ failure =>
    match phase,failure with
    | .acquiring,some error | .acquired _,some error => some (move s i (.threw error))
    | .acquired true,none => some (move s i .compiling)
    | .acquired false,none => some (move s i .waiting)
    | _,_ => none
  | .polls _ =>
    match phase with
    | .waiting => (poll s.object).map fun answer => move s i (waited answer)
    | _ => none
  | .timesOut _ =>
    match phase with
    | .waiting => some (move s i (waited timeout))
    | _ => none
  | .waitFails _ failure =>
    match phase with
    | .waiting => some (move s i (.threw failure))
    | _ => none
  | .compiled _ outcome =>
    match phase,outcome with
    | .compiling,.ok result => some (send s i (.complete result) s.messages fun m => .completing m result)
    | .compiling,.error error => some (send s i (.fail (failBody error)) s.messages fun m => .failing m error)
    | _,_ => none
  | .settles _ failure =>
    match phase,failure with
    | .completing m result,none => if stage s.messages m = .done then some (move s i (.returned result)) else none
    | .completing m _,some error =>
      some (send s i (.fail (failBody error)) (abandon s.messages m) fun m => .failing m error)
    | .failing m error,none => if stage s.messages m = .done then some (move s i (.threw error)) else none
    | .failing m _,some error => some { move s i (.threw error) with messages := abandon s.messages m }
    | _,_ => none
  | _ => none

def step (s : State ρ) (event : Event ρ) : Option (State ρ) :=
  match event with
  | .call => some { s with workers := s.workers ++ [.acquiring] }
  | .begins m =>
    if stage s.messages m = .sent then
      some { s with messages := setStage s.messages m (if s.object.inFlight then .checked else .done) }
    else none
  | .stores m => do
    let message ← s.messages[m]?
    if message.stage = .checked then
      some { s with object := store message.release, messages := setStage s.messages m .done }
    else none
  | .acquire i | .acquireSettles i _ | .polls i | .timesOut i | .waitFails i _ | .compiled i _ | .settles i _ => do
    let phase ← s.workers[i]?
    workerStep s i phase event

-- Executing compileFn under the lock.
def Executing (s : State ρ) (i : Nat) : Prop := s.workers[i]? = some .compiling

def MutualExclusion (s : State ρ) : Prop := ∀ i j, Executing s i → Executing s j → i = j

-- A message that releases the lock comes from its holder.
def ReleasesOwn (s : State ρ) : Prop :=
  ∀ m message t, s.messages[m]? = some message → step s (.stores m) = some t → s.object.inFlight = true →
    s.holder = some message.owner

-- No lock is granted while a /complete or /fail request is on its way, and no
-- /complete fetch fails while another Worker holds the lock.
def undisturbed (s : State ρ) : Event ρ → Bool
  | .acquire _ => s.object.inFlight || s.messages.all fun message => message.stage = .done
  | .settles i (some _) =>
    match s.workers[i]? with
    | some (.completing _ _) => !s.object.inFlight || s.holder = some i
    | _ => true
  | _ => true

-- Phases in which the lock is the Worker's, and those behind its compilation.
def Phase.Owns : Phase ρ → Prop
  | .acquired true | .compiling => True
  | _ => False

def Phase.Past : Phase ρ → Prop
  | .completing _ _ | .failing _ _ | .returned _ | .threw _ => True
  | _ => False

-- The Worker's compilation is over.
def Behind (workers : List (Phase ρ)) (i : Nat) : Prop := ∃ phase : Phase ρ, workers[i]? = some phase ∧ phase.Past

-- Messages that have at most become done with.
def Settled (before after : List (Message ρ)) : Prop :=
  ∀ (m : Nat) (message : Message ρ), after[m]? = some message →
    ∃ old : Message ρ, before[m]? = some old ∧ old.owner = message.owner ∧ (message.stage ≠ .done → old.stage ≠ .done)

theorem settled_refl (messages : List (Message ρ)) : Settled messages messages :=
  fun _ message found => ⟨message,found,rfl,id⟩

theorem setStage_settled (live : new ≠ .done → stage messages m ≠ .done) : Settled messages (setStage messages m new) := by
  intro k message found
  unfold setStage at found
  rw [List.getElem?_modify] at found
  obtain ⟨old,located,rfl⟩ := Option.map_eq_some_iff.mp found
  by_cases same : m = k
  · subst same
    rw [if_pos rfl]
    refine ⟨old,located,rfl,?_⟩
    intro undone
    have before := live undone
    unfold stage at before
    rw [located] at before
    exact before
  · rw [if_neg same]
    exact ⟨old,located,rfl,id⟩

theorem abandon_settled (messages : List (Message ρ)) (m : Nat) : Settled messages (abandon messages m) := by
  unfold abandon
  split
  · exact setStage_settled fun undone => absurd rfl undone
  · exact settled_refl messages

inductive Change (s : State ρ) : Event ρ → State ρ → Prop where
  | called : Change s .call { s with workers := s.workers ++ [.acquiring] }
  | granted (found : s.workers[i]? = some .acquiring) (free : s.object.inFlight = false) :
      Change s (.acquire i) ⟨⟨true,none,none⟩,some i,s.workers.set i (.acquired true),s.messages⟩
  | moved (found : s.workers[i]? = some phase) (owns : next.Owns → phase.Owns) (past : phase.Past → next.Past)
      (settled : Settled s.messages messages) :
      Change s event ⟨s.object,s.holder,s.workers.set i next,messages⟩
  | sent (found : s.workers[i]? = some phase)
      (own : phase.Owns ∨ ∃ error m result, event = .settles i (some error) ∧ phase = .completing m result)
      (past : next.Past) (loose : ¬next.Owns) (settled : Settled s.messages messages) :
      Change s event ⟨s.object,s.holder,s.workers.set i next,messages ++ [⟨i,release,.sent⟩]⟩
  | begun (settled : Settled s.messages messages) : Change s event { s with messages := messages }
  | stored (found : s.messages[m]? = some message) (checked : message.stage = .checked)
      (settled : Settled s.messages messages) :
      Change s (.stores m) { s with object := store message.release, messages := messages }

theorem step_cases (stepped : step s event = some t) : Change s event t := by
  cases event with
  | call => cases stepped; exact .called
  | begins m =>
    simp only [step] at stepped
    split at stepped
    · rename_i sent
      cases stepped
      exact .begun (setStage_settled fun _ => sent ▸ by decide)
    · cases stepped
  | stores m =>
    obtain ⟨message,found,rest⟩ := Option.bind_eq_some_iff.mp stepped
    split at rest
    · rename_i checked
      cases rest
      exact .stored found checked (setStage_settled fun undone => absurd rfl undone)
    · cases rest
  | acquire i =>
    obtain ⟨phase,found,rest⟩ := Option.bind_eq_some_iff.mp stepped
    cases phase with
    | acquiring =>
      cases taken : s.object.inFlight with
      | true =>
        have refused : handleAcquire s.object = (false,s.object) := if_pos taken
        simp only [workerStep,refused,Bool.false_eq_true,if_false,Option.some.injEq] at rest
        subst rest
        exact .moved found id id (settled_refl _)
      | false =>
        have granted : handleAcquire s.object = (true,⟨true,none,none⟩) := if_neg (by simp [taken])
        simp only [workerStep,granted,if_true,Option.some.injEq] at rest
        subst rest
        exact .granted found taken
    | acquired _ | waiting | compiling | completing _ _ | failing _ _ | returned _ | threw _ => cases rest
  | acquireSettles i failure =>
    obtain ⟨phase,found,rest⟩ := Option.bind_eq_some_iff.mp stepped
    cases phase with
    | acquiring =>
      cases failure with
      | none => cases rest
      | some error => cases rest; exact .moved found False.elim (fun _ => trivial) (settled_refl _)
    | acquired granted =>
      cases failure with
      | some error =>
        cases granted <;> cases rest <;> exact .moved found False.elim (fun _ => trivial) (settled_refl _)
      | none =>
        cases granted with
        | true => cases rest; exact .moved found (fun _ => trivial) id (settled_refl _)
        | false => cases rest; exact .moved found id id (settled_refl _)
    | waiting | compiling | completing _ _ | failing _ _ | returned _ | threw _ => cases failure <;> cases rest
  | polls i =>
    obtain ⟨phase,found,rest⟩ := Option.bind_eq_some_iff.mp stepped
    cases phase with
    | waiting =>
      obtain ⟨answer,-,rfl⟩ := Option.map_eq_some_iff.mp rest
      cases answer <;> exact .moved found False.elim (fun _ => trivial) (settled_refl _)
    | acquiring | acquired _ | compiling | completing _ _ | failing _ _ | returned _ | threw _ => cases rest
  | timesOut i =>
    obtain ⟨phase,found,rest⟩ := Option.bind_eq_some_iff.mp stepped
    cases phase with
    | waiting => cases rest; exact .moved found False.elim (fun _ => trivial) (settled_refl _)
    | acquiring | acquired _ | compiling | completing _ _ | failing _ _ | returned _ | threw _ => cases rest
  | waitFails i failure =>
    obtain ⟨phase,found,rest⟩ := Option.bind_eq_some_iff.mp stepped
    cases phase with
    | waiting => cases rest; exact .moved found False.elim (fun _ => trivial) (settled_refl _)
    | acquiring | acquired _ | compiling | completing _ _ | failing _ _ | returned _ | threw _ => cases rest
  | compiled i outcome =>
    obtain ⟨phase,found,rest⟩ := Option.bind_eq_some_iff.mp stepped
    cases phase with
    | compiling =>
      cases outcome with
      | ok result => cases rest; exact .sent found (.inl trivial) trivial id (settled_refl _)
      | error error => cases rest; exact .sent found (.inl trivial) trivial id (settled_refl _)
    | acquiring | acquired _ | waiting | completing _ _ | failing _ _ | returned _ | threw _ => cases outcome <;> cases rest
  | settles i failure =>
    obtain ⟨phase,found,rest⟩ := Option.bind_eq_some_iff.mp stepped
    cases phase with
    | completing m result =>
      cases failure with
      | none =>
        simp only [workerStep] at rest
        split at rest
        · cases rest; exact .moved found False.elim (fun _ => trivial) (settled_refl _)
        · cases rest
      | some error =>
        cases rest
        exact .sent found (.inr ⟨error,m,result,rfl,rfl⟩) trivial id (abandon_settled _ _)
    | failing m error =>
      cases failure with
      | none =>
        simp only [workerStep] at rest
        split at rest
        · cases rest; exact .moved found False.elim (fun _ => trivial) (settled_refl _)
        · cases rest
      | some lost => cases rest; exact .moved found False.elim (fun _ => trivial) (abandon_settled _ _)
    | acquiring | acquired _ | waiting | compiling | returned _ | threw _ => cases failure <;> cases rest

-- The lock is held by whoever owns it by its phase, messages on their way are
-- the holder's, and a sender has its compilation behind it.
structure Held (s : State ρ) : Prop where
  owners : ∀ i phase, s.workers[i]? = some phase → phase.Owns → s.object.inFlight = true ∧ s.holder = some i
  onTheirWay : ∀ (m : Nat) (message : Message ρ), s.messages[m]? = some message → message.stage ≠ .done →
    s.object.inFlight = true → s.holder = some message.owner
  senders : ∀ (m : Nat) (message : Message ρ), s.messages[m]? = some message → Behind s.workers message.owner

theorem past_loose {phase : Phase ρ} (past : phase.Past) : ¬phase.Owns := by
  cases phase <;> first | exact past.elim | exact id

theorem past_set {workers : List (Phase ρ)} {phase next : Phase ρ} (found : workers[i]? = some phase)
    (past : phase.Past → next.Past) (sender : Behind workers j) : Behind (workers.set i next) j := by
  obtain ⟨other,located,behind⟩ := sender
  by_cases same : i = j
  · subst same
    obtain rfl : phase = other := Option.some.inj (found.symm.trans located)
    exact ⟨next,placed_set found next,past behind⟩
  · exact ⟨other,(List.getElem?_set_ne same).trans located,behind⟩

theorem settled_senders {workers : List (Phase ρ)} {before after : List (Message ρ)} (settled : Settled before after)
    (senders : ∀ (m : Nat) (message : Message ρ), before[m]? = some message → Behind workers message.owner) {m : Nat}
    (found : after[m]? = some message) : Behind workers message.owner := by
  obtain ⟨old,located,same,-⟩ := settled m message found
  exact same ▸ senders m old located

theorem settled_holder {before after : List (Message ρ)} (settled : Settled before after)
    (onTheirWay : ∀ (m : Nat) (message : Message ρ), before[m]? = some message → message.stage ≠ .done → taken →
      holder = some message.owner) {m : Nat} (found : after[m]? = some message) (undone : message.stage ≠ .done) :
    taken → holder = some message.owner := by
  obtain ⟨old,located,same,live⟩ := settled m message found
  exact same ▸ onTheirWay m old located (live undone)

theorem held_step (held : Held s) (stepped : step s event = some t) (calm : undisturbed s event = true) : Held t := by
  obtain ⟨owners,onTheirWay,senders⟩ := held
  cases step_cases stepped with
  | called =>
    refine ⟨?_,onTheirWay,?_⟩
    · intro j phase found owns
      cases found_append found with
      | inl old => exact owners j phase old owns
      | inr new => exact absurd owns (new.2 ▸ id)
    · intro m message found
      obtain ⟨phase,located,past⟩ := senders m message found
      have present := (List.getElem?_eq_some_iff.mp located).1
      exact ⟨phase,(List.getElem?_append_left present).trans located,past⟩
  | @granted i found free =>
    have quiet : ∀ message ∈ s.messages, message.stage = .done := by
      intro message member
      unfold undisturbed at calm
      rw [free,Bool.false_or,List.all_eq_true] at calm
      exact of_decide_eq_true (calm message member)
    refine ⟨?_,?_,?_⟩
    · intro j phase located owns
      cases found_set located with
      | inl here => exact ⟨rfl,congrArg some here.1.symm⟩
      | inr elsewhere =>
        have taken := (owners j phase elsewhere.2 owns).1
        rw [free] at taken
        cases taken
    · intro m message located undone
      exact absurd (quiet message (List.mem_of_getElem? located)) undone
    · intro m message located
      exact past_set found False.elim (senders m message located)
  | @moved i phase next event messages found owns past settled =>
    refine ⟨?_,fun m message => settled_holder settled onTheirWay,?_⟩
    · intro j other located mine
      cases found_set located with
      | inl here =>
        obtain ⟨rfl,rfl⟩ := here
        exact owners j phase found (owns mine)
      | inr elsewhere => exact owners j other elsewhere.2 mine
    · intro m message located
      exact past_set found past (settled_senders settled senders located)
  | @sent i phase event messages next release found own past loose settled =>
    refine ⟨?_,?_,?_⟩
    · intro j other located mine
      cases found_set located with
      | inl here => exact absurd mine (here.2 ▸ loose)
      | inr elsewhere => exact owners j other elsewhere.2 mine
    · intro m message located undone (taken : s.object.inFlight = true)
      cases found_append located with
      | inl old => exact settled_holder settled onTheirWay old undone taken
      | inr new =>
        rw [new.2]
        cases own with
        | inl mine => exact (owners i phase found mine).2
        | inr failed =>
          obtain ⟨error,n,result,rfl,rfl⟩ := failed
          simp only [undisturbed,found,taken,Bool.not_true,Bool.false_or,decide_eq_true_eq] at calm
          exact calm
    · intro m message located
      cases found_append located with
      | inl old => exact past_set found (fun _ => past) (settled_senders settled senders old)
      | inr new =>
        rw [new.2]
        exact ⟨next,placed_set found next,past⟩
  | begun settled => exact ⟨owners,fun m message => settled_holder settled onTheirWay,fun m message => settled_senders settled senders⟩
  | @stored m message messages found checked settled =>
    have released : (store message.release).inFlight = false := by cases message.release <;> rfl
    refine ⟨?_,?_,fun m message => settled_senders settled senders⟩
    · intro j phase located owns
      obtain ⟨taken,holder⟩ := owners j phase located owns
      have undone : message.stage ≠ .done := checked ▸ by decide
      have sender : message.owner = j := Option.some.inj ((onTheirWay m message found undone taken).symm.trans holder)
      obtain ⟨other,also,past⟩ := senders m message found
      rw [sender] at also
      obtain rfl : phase = other := Option.some.inj (located.symm.trans also)
      exact absurd owns (past_loose past)
    · intro k other located undone taken
      rw [show (store message.release).inFlight = true from taken] at released
      cases released

theorem held_start : Held (start : State ρ) := by
  refine ⟨?_,?_,?_⟩
  · intro i phase found
    simp [start] at found
  · intro m message found
    simp [start] at found
  · intro m message found
    simp [start] at found

theorem held_exclusive (held : Held s) : MutualExclusion s := by
  intro i j one two
  have first := (held.owners i .compiling one trivial).2
  have second := (held.owners j .compiling two trivial).2
  exact Option.some.inj (first.symm.trans second)

theorem held_releases (held : Held s) : ReleasesOwn s := by
  intro m message t found stepped taken
  obtain ⟨same,located,rest⟩ := Option.bind_eq_some_iff.mp stepped
  obtain rfl : message = same := Option.some.inj (found.symm.trans located)
  split at rest
  · rename_i checked
    exact held.onTheirWay m message found (checked ▸ by decide) taken
  · cases rest

theorem lock_excludes (ran : run (guarded undisturbed step) start events = some s) :
    MutualExclusion s ∧ ReleasesOwn s := by
  have held : Held s := by
    refine run_keeps Held ?_ held_start ran
    intro s event t held stepped
    obtain ⟨calm,plain⟩ := guarded_step.mp stepped
    exact held_step held plain calm
  exact ⟨held_exclusive held,held_releases held⟩

-- The first of three Workers compiles and its result is stored, while another
-- one waits for it.
def oneCompleted : List (Event Text) :=
  [.call,.call,.call,.acquire 0,.acquire 1,.acquireSettles 0 none,.acquireSettles 1 none,
    .compiled 0 (.ok "rules".toList),.begins 0,.stores 0]

theorem oneCompleted_excludes : ∃ s, run (guarded undisturbed step) start (oneCompleted ++ [.settles 0 none,.polls 1]) = some s ∧
    MutualExclusion s ∧ ReleasesOwn s := by
  have ran : run (guarded undisturbed step) start (oneCompleted ++ [.settles 0 none,.polls 1]) = some _ := rfl
  exact ⟨_,ran,lock_excludes ran⟩

-- The answer to its /complete is lost. By the time its /fail arrives, another
-- Worker has the lock, and a third takes it from there.
def answerLost : List (Event Text) :=
  oneCompleted ++ [.call,.acquire 2,.acquireSettles 2 none,.settles 0 (some "Network connection lost.".toList),
    .begins 1,.stores 1,.acquire 3,.acquireSettles 3 none]

theorem both_hold : ¬∀ (events : List (Event Text)) s, run step start events = some s → MutualExclusion s ∧ ReleasesOwn s := by
  intro always
  have one := (always answerLost _ rfl).1
  have same := one 2 3 rfl rfl
  cases same

end AdblockCompiler.Coordinator
