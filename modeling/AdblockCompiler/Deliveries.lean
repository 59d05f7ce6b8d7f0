import AdblockCompiler.Schedules

-- A queue that gives its messages out in batches. A consumer answers for the
-- messages of its batch in turn; what its answer does not settle, or is not
-- answered for when the consumer is lost, is given out again.
namespace Deliveries
open Schedules

inductive Stage where
  | waiting
  | held (consumer : Nat)
  | settled
  | expired
  deriving DecidableEq, Repr

-- The outcomes are history: on which delivery each answer was given.
structure Cell (μ ω : Type) where
  message : μ
  attempts : Nat
  stage : Stage
  outcomes : List (Nat × ω)

structure Answer (μ ω : Type) where
  cell : Nat
  message : μ
  attempt : Nat
  outcome : ω

-- The batch and the answers are history. lost says that the consumer is gone.
structure Consumer (μ ω γ : Type) where
  batch : List Nat
  left : List Nat
  answers : List (Answer μ ω)
  memory : γ
  lost : Bool

structure State (μ ω γ : Type) where
  cells : List (Cell μ ω)
  consumers : List (Consumer μ ω γ)

-- What a consumer does with the outcome for a message: what it remembers, and
-- whether the message is settled by it.
structure System (μ ω γ : Type) where
  start : γ
  turn : γ → μ → Nat → ω → γ × Bool
  settles : Nat → ω → Bool
  steady : ∀ memory message attempt outcome, (turn memory message attempt outcome).2 = settles attempt outcome

inductive Event (μ ω : Type) where
  | accept (messages : List μ)
  | deliver (batch : List Nat)
  | answer (consumer : Nat) (outcome : ω)
  | lose (consumer : Nat)
  | expire (cell : Nat)

variable {μ ω γ : Type}

def opened : State μ ω γ := ⟨[],[]⟩

def Cell.fresh (message : μ) : Cell μ ω := ⟨message,0,.waiting,[]⟩

def Cell.give (consumer : Nat) (cell : Cell μ ω) : Cell μ ω := { cell with attempts := cell.attempts+1, stage := .held consumer }

def Cell.answered (outcome : ω) (settled : Bool) (cell : Cell μ ω) : Cell μ ω :=
  { cell with stage := if settled then .settled else .waiting, outcomes := cell.outcomes ++ [(cell.attempts,outcome)] }

def Cell.release (consumer : Nat) (cell : Cell μ ω) : Cell μ ω := if cell.stage = .held consumer then { cell with stage := .waiting } else cell

def State.stageAt (s : State μ ω γ) (i : Nat) : Option Stage := s.cells[i]?.map Cell.stage

def State.leftOf (s : State μ ω γ) (c : Nat) : List Nat := (s.consumers[c]?.map Consumer.left).getD []

def State.give (s : State μ ω γ) (start : γ) (batch : List Nat) : State μ ω γ where
  cells := s.cells.mapIdx fun i cell => if i ∈ batch then cell.give s.consumers.length else cell
  consumers := s.consumers ++ [⟨batch,batch,[],start,false⟩]

def Consumer.answered (consumer : Consumer μ ω γ) (rest : List Nat) (answer : Answer μ ω) (memory : γ) : Consumer μ ω γ :=
  { consumer with left := rest, answers := consumer.answers ++ [answer], memory := memory }

def State.accept (s : State μ ω γ) (messages : List μ) : State μ ω γ := { s with cells := s.cells ++ messages.map Cell.fresh }

def step (system : System μ ω γ) (s : State μ ω γ) : Event μ ω → Option (State μ ω γ)
  | .accept messages => some (s.accept messages)
  | .deliver batch => if batch.Nodup ∧ ∀ i ∈ batch, s.stageAt i = some .waiting then some (s.give system.start batch) else none
  | .answer c outcome => do
    let consumer ← s.consumers[c]?
    match consumer.left with
    | [] => none
    | i :: rest => do
      let cell ← s.cells[i]?
      let turned := system.turn consumer.memory cell.message cell.attempts outcome
      some ⟨s.cells.set i (cell.answered outcome turned.2),
        s.consumers.set c (consumer.answered rest ⟨i,cell.message,cell.attempts,outcome⟩ turned.1)⟩
  | .lose c => do
    let consumer ← s.consumers[c]?
    some ⟨s.cells.map (Cell.release c),s.consumers.set c { consumer with left := [], lost := true }⟩
  | .expire i => do
    let cell ← s.cells[i]?
    if cell.stage = .waiting then some { s with cells := s.cells.set i { cell with stage := .expired } } else none

-- All that a step can do.
inductive Turn (system : System μ ω γ) (s : State μ ω γ) : State μ ω γ → Prop where
  | accept (messages : List μ) : Turn system s (s.accept messages)
  | deliver (apart : batch.Nodup) (waits : ∀ i ∈ batch, s.stageAt i = some .waiting) : Turn system s (s.give system.start batch)
  | answer (outcome : ω) (there : s.consumers[c]? = some consumer) (first : consumer.left = i :: rest) (found : s.cells[i]? = some cell) :
      Turn system s ⟨s.cells.set i (cell.answered outcome (system.settles cell.attempts outcome)),
        s.consumers.set c (consumer.answered rest ⟨i,cell.message,cell.attempts,outcome⟩
          (system.turn consumer.memory cell.message cell.attempts outcome).1)⟩
  | lose (there : s.consumers[c]? = some consumer) :
      Turn system s ⟨s.cells.map (Cell.release c),s.consumers.set c { consumer with left := [], lost := true }⟩
  | expire (found : s.cells[i]? = some cell) (waits : cell.stage = .waiting) :
      Turn system s { s with cells := s.cells.set i { cell with stage := .expired } }

variable {system : System μ ω γ} {s t : State μ ω γ} {event : Event μ ω}

theorem step_turn (stepped : step system s event = some t) : Turn system s t := by
  cases event with
  | accept messages =>
    cases stepped
    exact .accept messages
  | deliver batch =>
    simp only [step] at stepped
    split at stepped
    · rename_i holds
      cases stepped
      exact .deliver holds.1 holds.2
    · cases stepped
  | answer c outcome =>
    obtain ⟨consumer,there,rest_⟩ := Option.bind_eq_some_iff.mp stepped
    split at rest_
    · cases rest_
    · rename_i i rest first
      obtain ⟨cell,found,made⟩ := Option.bind_eq_some_iff.mp rest_
      simp only [system.steady] at made
      cases made
      exact .answer outcome there first found
  | lose c =>
    obtain ⟨consumer,there,made⟩ := Option.bind_eq_some_iff.mp stepped
    cases made
    exact .lose there
  | expire i =>
    obtain ⟨cell,found,made⟩ := Option.bind_eq_some_iff.mp stepped
    split at made
    · cases made
      exact .expire found ‹_›
    · cases made

-- What the outcomes of a message tell of where it is. Only the last of them may
-- have settled it.
structure Cell.Sound (settles : Nat → ω → Bool) (cell : Cell μ ω) : Prop where
  numbered : cell.outcomes.Pairwise fun one two => one.1 < two.1
  delivered : ∀ outcome ∈ cell.outcomes, 0 < outcome.1 ∧ outcome.1 ≤ cell.attempts
  pending : ∀ c, cell.stage = .held c → 0 < cell.attempts ∧ ∀ outcome ∈ cell.outcomes, outcome.1 < cell.attempts
  unsettled : cell.stage ≠ .settled → ∀ outcome ∈ cell.outcomes, settles outcome.1 outcome.2 = false
  settled : cell.stage = .settled → ∃ earlier last, cell.outcomes = earlier ++ [last] ∧ settles last.1 last.2 = true ∧
    ∀ outcome ∈ earlier, settles outcome.1 outcome.2 = false

theorem fresh_sound (settles : Nat → ω → Bool) (message : μ) : (Cell.fresh message : Cell μ ω).Sound settles where
  numbered := .nil
  delivered := by simp [Cell.fresh]
  pending := by simp [Cell.fresh]
  unsettled := by simp [Cell.fresh]
  settled := by simp [Cell.fresh]

theorem give_sound {cell : Cell μ ω} (sound : cell.Sound settles) (waits : cell.stage = .waiting) (c : Nat) : (cell.give c).Sound settles where
  numbered := sound.numbered
  delivered := by
    intro outcome member
    obtain ⟨positive,before⟩ := sound.delivered outcome member
    exact ⟨positive,Nat.le_succ_of_le before⟩
  pending := by
    intro _ _
    refine ⟨Nat.succ_pos _,?_⟩
    intro outcome member
    exact Nat.lt_succ_of_le (sound.delivered outcome member).2
  unsettled := fun _ => sound.unsettled (by simp [waits])
  settled := by simp [Cell.give]

theorem answered_sound {cell : Cell μ ω} (sound : cell.Sound settles) (held : cell.stage = .held c) (outcome : ω) :
    (cell.answered outcome (settles cell.attempts outcome)).Sound settles where
  numbered := by
    refine List.pairwise_append.mpr ⟨sound.numbered,List.pairwise_singleton _ _,?_⟩
    intro earlier member last same
    obtain rfl := List.mem_singleton.mp same
    exact (sound.pending c held).2 earlier member
  delivered := forall_append sound.delivered ⟨(sound.pending c held).1,Nat.le_refl _⟩
  pending := by
    intro _ still
    simp only [Cell.answered] at still
    split at still <;> cases still
  unsettled := by
    intro open_
    refine forall_append (sound.unsettled (by simp [held])) ?_
    cases given : settles cell.attempts outcome with
    | false => rfl
    | true => simp [Cell.answered,given] at open_
  settled := by
    intro closed
    refine ⟨cell.outcomes,(cell.attempts,outcome),rfl,?_,sound.unsettled (by simp [held])⟩
    cases given : settles cell.attempts outcome with
    | true => rfl
    | false => simp [Cell.answered,given] at closed

-- A message that nobody holds any more, and that is not settled by that.
theorem moved_sound {cell : Cell μ ω} (sound : cell.Sound settles) (open_ : cell.stage ≠ .settled) {stage : Stage}
    (next : stage = .waiting ∨ stage = .expired) : Cell.Sound settles { cell with stage := stage } where
  numbered := sound.numbered
  delivered := sound.delivered
  pending := by
    intro c held
    rcases next with rfl | rfl
    · cases held
    · cases held
  unsettled := fun _ => sound.unsettled open_
  settled := by
    intro closed
    rcases next with rfl | rfl
    · cases closed
    · cases closed

theorem release_sound {cell : Cell μ ω} (sound : cell.Sound settles) (c : Nat) : (cell.release c).Sound settles := by
  unfold Cell.release
  split
  · exact moved_sound sound (by simp [*]) (.inl rfl)
  · exact sound

-- There are few answers on early deliveries, as no two are given on one.
theorem answers_few {outcomes : List (Nat × ω)} (numbered : outcomes.Pairwise fun one two => one.1 < two.1) (bound : Nat)
    (early : ∀ outcome ∈ outcomes, 0 < outcome.1 ∧ outcome.1 < bound) : outcomes.length ≤ bound-1 := by
  have distinct : (outcomes.map Prod.fst).Nodup := List.pairwise_map.mpr (numbered.imp fun less => Nat.ne_of_lt less)
  have inside : outcomes.map Prod.fst ⊆ (List.range bound).tail := by
    intro n member
    obtain ⟨outcome,listed,rfl⟩ := List.mem_map.mp member
    have bounds := early outcome listed
    rw [List.range_eq_range',List.tail_range',List.mem_range'_1]
    omega
  have sizes := (distinct.subperm inside).length_le
  simpa using sizes

theorem answers_bounded {cell : Cell μ ω} (sound : cell.Sound settles) (again : ∀ attempt outcome, settles attempt outcome = false → attempt < bound) :
    cell.outcomes.length ≤ max 1 bound := by
  by_cases closed : cell.stage = .settled
  · obtain ⟨earlier,last,parts,-,unsettled⟩ := sound.settled closed
    have numbered := sound.numbered
    rw [parts,List.pairwise_append] at numbered
    have few := answers_few numbered.1 bound (by
      intro outcome member
      have listed : outcome ∈ cell.outcomes := parts ▸ List.mem_append_left _ member
      exact ⟨(sound.delivered outcome listed).1,again _ _ (unsettled outcome member)⟩)
    rw [parts,List.length_append,List.length_singleton]
    omega
  · have few := answers_few sound.numbered bound (by
      intro outcome member
      exact ⟨(sound.delivered outcome member).1,again _ _ (sound.unsettled closed outcome member)⟩)
    omega

-- What the answers of a consumer, and the outcomes of a message, add up to.
def Consumer.weigh (weight : μ → Nat → ω → Nat) (consumer : Consumer μ ω γ) : Nat :=
  total (fun answer => weight answer.message answer.attempt answer.outcome) consumer.answers

def Cell.weigh (weight : μ → Nat → ω → Nat) (cell : Cell μ ω) : Nat := total (fun outcome => weight cell.message outcome.1 outcome.2) cell.outcomes

structure Consumer.Sound (system : System μ ω γ) (consumer : Consumer μ ω γ) : Prop where
  remembers : consumer.memory =
    consumer.answers.foldl (fun memory answer => (system.turn memory answer.message answer.attempt answer.outcome).1) system.start
  parts : consumer.lost = false → consumer.batch = consumer.answers.map Answer.cell ++ consumer.left

-- A message is held exactly by the consumer whose batch it is still in.
structure Sound (system : System μ ω γ) (s : State μ ω γ) : Prop where
  cells : ∀ cell ∈ s.cells, cell.Sound system.settles
  consumers : ∀ consumer ∈ s.consumers, consumer.Sound system
  apart : ∀ consumer ∈ s.consumers, consumer.left.Nodup
  held : ∀ i c, s.stageAt i = some (.held c) ↔ i ∈ s.leftOf c
  balanced : ∀ weight : μ → Nat → ω → Nat, total (Consumer.weigh weight) s.consumers = total (Cell.weigh weight) s.cells

theorem stageAt_found (found : s.cells[i]? = some cell) : s.stageAt i = some cell.stage := by
  rw [State.stageAt,found]
  rfl

theorem stageAt_set (found : s.cells[i]? = some cell) (next : Cell μ ω) (consumers : List (Consumer μ ω γ)) (j : Nat) :
    State.stageAt ⟨s.cells.set i next,consumers⟩ j = if j = i then some next.stage else s.stageAt j := by
  split
  · rename_i same
    rw [same]
    exact stageAt_found (placed_set found next)
  · rename_i other
    simp only [State.stageAt,List.getElem?_set_ne (Ne.symm other)]

theorem stageAt_give (start : γ) (batch : List Nat) (i : Nat) :
    (s.give start batch).stageAt i = if i ∈ batch then (s.stageAt i).map fun _ => .held s.consumers.length else s.stageAt i := by
  simp only [State.stageAt,State.give,List.getElem?_mapIdx,Option.map_map]
  split
  · simp [*,Function.comp_def,Cell.give]
  · simp [*,Function.comp_def]

theorem stageAt_release (c : Nat) (consumers : List (Consumer μ ω γ)) (i : Nat) :
    State.stageAt ⟨s.cells.map (Cell.release c),consumers⟩ i = (s.stageAt i).map fun stage => if stage = .held c then .waiting else stage := by
  simp only [State.stageAt,List.getElem?_map,Option.map_map]
  congr 1
  funext cell
  simp only [Function.comp_apply,Cell.release]
  split <;> rfl

theorem stageAt_accept (messages : List μ) (i : Nat) :
    (s.accept messages).stageAt i = s.stageAt i ∨ (s.accept messages).stageAt i = some .waiting ∧ s.stageAt i = none := by
  simp only [State.stageAt,State.accept]
  by_cases old : i < s.cells.length
  · rw [List.getElem?_append_left old]
    exact .inl rfl
  · have late := Nat.le_of_not_lt old
    rw [List.getElem?_append_right late,List.getElem?_map,List.getElem?_eq_none late]
    cases messages[i-s.cells.length]? with
    | none => exact .inl rfl
    | some message => exact .inr ⟨rfl,rfl⟩

theorem leftOf_found (there : s.consumers[c]? = some consumer) : s.leftOf c = consumer.left := by
  rw [State.leftOf,there]
  rfl

theorem leftOf_set (there : s.consumers[c]? = some consumer) (next : Consumer μ ω γ) (cells : List (Cell μ ω)) (b : Nat) :
    State.leftOf ⟨cells,s.consumers.set c next⟩ b = if b = c then next.left else s.leftOf b := by
  split
  · rename_i same
    rw [same]
    exact leftOf_found (placed_set there next)
  · rename_i other
    simp only [State.leftOf,List.getElem?_set_ne (Ne.symm other)]

theorem leftOf_give (start : γ) (batch : List Nat) (c : Nat) :
    (s.give start batch).leftOf c = if c = s.consumers.length then batch else s.leftOf c := by
  simp only [State.leftOf,State.give]
  split
  · rename_i last
    simp [last]
  · rename_i other
    by_cases old : c < s.consumers.length
    · rw [List.getElem?_append_left old]
    · rw [List.getElem?_eq_none (by simp; omega),List.getElem?_eq_none (by omega)]

theorem leftOf_new : s.leftOf s.consumers.length = [] := by
  rw [State.leftOf,List.getElem?_eq_none (Nat.le_refl _)]
  rfl

-- The consumer that answers for a message holds it.
theorem answering_holds {consumer : Consumer μ ω γ} {cell : Cell μ ω} (sound : Sound system s) (there : s.consumers[c]? = some consumer)
    (first : consumer.left = i :: rest) (found : s.cells[i]? = some cell) : cell.stage = .held c := by
  have mine := (sound.held i c).mpr (by simp [leftOf_found there,first])
  rw [stageAt_found found] at mine
  exact Option.some.inj mine

theorem held_give (sound : Sound system s) (waits : ∀ i ∈ batch, s.stageAt i = some .waiting) (start : γ) (i c : Nat) :
    (s.give start batch).stageAt i = some (.held c) ↔ i ∈ (s.give start batch).leftOf c := by
  rw [stageAt_give,leftOf_give]
  by_cases member : i ∈ batch
  · have waiting := waits i member
    by_cases new : c = s.consumers.length
    · simp [member,new,waiting]
    · have absent : i ∉ s.leftOf c := by
        intro inside
        have held := (sound.held i c).mpr inside
        rw [waiting] at held
        cases held
      simp [member,new,Ne.symm new,waiting,absent]
  · by_cases new : c = s.consumers.length
    · have nobody := sound.held i c
      rw [new,leftOf_new] at nobody
      simpa [member,new] using nobody
    · simpa [member,new] using sound.held i c

-- A message out of a batch is in no other.
theorem held_answer {consumer next : Consumer μ ω γ} {cell : Cell μ ω} (sound : Sound system s) (there : s.consumers[b]? = some consumer)
    (first : consumer.left = j :: rest) (found : s.cells[j]? = some cell) (left : next.left = rest) (gone : ∀ c, done.stage ≠ .held c)
    (i c : Nat) :
    State.stageAt ⟨s.cells.set j done,s.consumers.set b next⟩ i = some (.held c) ↔
      i ∈ State.leftOf ⟨s.cells.set j done,s.consumers.set b next⟩ c := by
  have mine := answering_holds sound there first found
  have alone := sound.apart consumer (List.mem_of_getElem? there)
  rw [first,List.nodup_cons] at alone
  rw [stageAt_set found,leftOf_set there,left]
  by_cases same : i = j
  · subst same
    rw [if_pos rfl,Option.some.injEq]
    refine iff_of_false (gone c) ?_
    split
    · exact alone.1
    · rename_i other
      intro inside
      have held := (sound.held i c).mpr inside
      rw [stageAt_found found,mine] at held
      cases held
      exact other rfl
  · rw [if_neg same,sound.held i c]
    split
    · rename_i own
      rw [own,leftOf_found there,first]
      simp [same]
    · rfl

theorem held_release (sound : Sound system s) (there : s.consumers[b]? = some consumer) {next : Consumer μ ω γ} (left : next.left = [])
    (i c : Nat) :
    State.stageAt ⟨s.cells.map (Cell.release b),s.consumers.set b next⟩ i = some (.held c) ↔
      i ∈ State.leftOf ⟨s.cells.map (Cell.release b),s.consumers.set b next⟩ c := by
  rw [stageAt_release,leftOf_set there,left,Option.map_eq_some_iff]
  by_cases own : c = b
  · subst own
    rw [if_pos rfl]
    refine iff_of_false ?_ List.not_mem_nil
    intro still
    obtain ⟨stage,-,made⟩ := still
    split at made
    · cases made
    · exact absurd made ‹_›
  · rw [if_neg own,← sound.held i c]
    constructor
    · intro made
      obtain ⟨stage,before,after⟩ := made
      split at after
      · cases after
      · rw [before,after]
    · intro held
      exact ⟨.held c,held,by simp [own]⟩

theorem held_turn (sound : Sound system s) (turn : Turn system s t) (i c : Nat) : t.stageAt i = some (.held c) ↔ i ∈ t.leftOf c := by
  cases turn with
  | accept messages =>
    refine Iff.trans ?_ (sound.held i c)
    rcases stageAt_accept (s := s) messages i with same | ⟨new,absent⟩
    · rw [same]
    · rw [new,absent]
      simp
  | deliver apart waits => exact held_give sound waits system.start i c
  | answer outcome there first found =>
    refine held_answer sound there first found rfl ?_ i c
    intro c
    simp only [Cell.answered]
    split <;> simp
  | lose there => exact held_release sound there rfl i c
  | expire found waits =>
    rename_i j cell
    rw [stageAt_set found]
    by_cases same : i = j
    · subst same
      refine iff_of_false (by simp) ?_
      intro inside
      have held := (sound.held i c).mpr inside
      rw [stageAt_found found,waits] at held
      cases held
    · rw [if_neg same]
      exact sound.held i c

theorem cells_turn (sound : Sound system s) (turn : Turn system s t) : ∀ cell ∈ t.cells, cell.Sound system.settles := by
  cases turn with
  | accept messages =>
    refine List.forall_mem_append.mpr ⟨sound.cells,?_⟩
    intro cell member
    obtain ⟨message,-,rfl⟩ := List.mem_map.mp member
    exact fresh_sound system.settles message
  | deliver apart waits =>
    intro cell member
    obtain ⟨i,inside,rfl⟩ := List.mem_mapIdx.mp member
    have old := sound.cells _ (List.getElem_mem inside)
    split
    · rename_i given
      have waiting := waits i given
      rw [stageAt_found (List.getElem?_eq_getElem inside)] at waiting
      exact give_sound old (Option.some.inj waiting) _
    · exact old
  | answer outcome there first found =>
    have old := sound.cells _ (List.mem_of_getElem? found)
    exact forall_set sound.cells (answered_sound old (answering_holds sound there first found) outcome)
  | lose there =>
    intro cell member
    obtain ⟨old,inside,rfl⟩ := List.mem_map.mp member
    exact release_sound (sound.cells old inside) _
  | expire found waits =>
    have old := sound.cells _ (List.mem_of_getElem? found)
    exact forall_set sound.cells (moved_sound old (by simp [waits]) (.inr rfl))

theorem answered_remembers {consumer : Consumer μ ω γ} (sound : consumer.Sound system) (first : consumer.left = i :: rest) (message : μ)
    (attempt : Nat) (outcome : ω) :
    (consumer.answered rest ⟨i,message,attempt,outcome⟩ (system.turn consumer.memory message attempt outcome).1).Sound system where
  remembers := by
    simp only [Consumer.answered,List.foldl_append,← sound.remembers]
    rfl
  parts := by
    intro alive
    have before := sound.parts alive
    rw [first] at before
    simpa [Consumer.answered] using before

theorem consumers_turn (sound : Sound system s) (turn : Turn system s t) : ∀ consumer ∈ t.consumers, consumer.Sound system := by
  cases turn with
  | accept messages => exact sound.consumers
  | deliver apart waits => exact forall_append sound.consumers ⟨rfl,fun _ => rfl⟩
  | answer outcome there first found =>
    have old := sound.consumers _ (List.mem_of_getElem? there)
    exact forall_set sound.consumers (answered_remembers old first _ _ outcome)
  | lose there =>
    have old := sound.consumers _ (List.mem_of_getElem? there)
    exact forall_set sound.consumers ⟨old.remembers,fun alive => by cases alive⟩
  | expire found waits => exact sound.consumers

theorem apart_turn (sound : Sound system s) (turn : Turn system s t) : ∀ consumer ∈ t.consumers, consumer.left.Nodup := by
  cases turn with
  | accept messages => exact sound.apart
  | deliver apart waits => exact forall_append sound.apart apart
  | answer outcome there first found =>
    have old := sound.apart _ (List.mem_of_getElem? there)
    rw [first] at old
    exact forall_set sound.apart old.of_cons
  | lose there => exact forall_set sound.apart List.nodup_nil
  | expire found waits => exact sound.apart

-- What stays as it is in each cell stays as it is in the queue.
section Maps
variable {α : Type} {f : Cell μ ω → α}

theorem map_set {cells : List (Cell μ ω)} (found : cells[i]? = some old) (same : f new = f old) : (cells.set i new).map f = cells.map f := by
  obtain ⟨inside,rfl⟩ := List.getElem?_eq_some_iff.mp found
  rw [List.map_set,same]
  exact (congrArg ((cells.map f).set i) (List.getElem_map f).symm).trans (List.set_getElem_self (by simpa using inside))

theorem map_give (same : ∀ c cell, f (Cell.give c cell) = f cell) (start : γ) (batch : List Nat) : (s.give start batch).cells.map f = s.cells.map f := by
  refine List.ext_getElem (by simp [State.give]) ?_
  intro i _ _
  simp only [State.give,List.getElem_map,List.getElem_mapIdx]
  split
  · apply same
  · rfl

theorem map_release (same : ∀ (cell : Cell μ ω) stage, f { cell with stage := stage } = f cell) (c : Nat) (cells : List (Cell μ ω)) :
    (cells.map (Cell.release c)).map f = cells.map f := by
  rw [List.map_map]
  refine List.map_congr_left ?_
  intro cell _
  simp only [Function.comp_apply,Cell.release]
  split
  · apply same
  · rfl

end Maps

-- What a step leaves of the outcomes it leaves of their weight.
theorem weigh_same {cells others : List (Cell μ ω)} (same : cells.map (fun cell => (cell.message,cell.outcomes)) =
    others.map fun cell => (cell.message,cell.outcomes)) (weight : μ → Nat → ω → Nat) :
    total (Cell.weigh weight) cells = total (Cell.weigh weight) others := by
  have weighs (items : List (Cell μ ω)) : total (Cell.weigh weight) items =
      ((items.map fun cell => (cell.message,cell.outcomes)).map fun told => total (fun outcome => weight told.1 outcome.1 outcome.2) told.2).sum := by
    rw [total,List.map_map]
    rfl
  rw [weighs,weighs,same]

theorem balanced_turn (sound : Sound system s) (turn : Turn system s t) (weight : μ → Nat → ω → Nat) :
    total (Consumer.weigh weight) t.consumers = total (Cell.weigh weight) t.cells := by
  have before := sound.balanced weight
  cases turn with
  | accept messages =>
    have nothing : total (Cell.weigh weight) (messages.map (Cell.fresh : μ → Cell μ ω)) = 0 := by
      simp [total,Function.comp_def,Cell.weigh,Cell.fresh]
    rw [State.accept,total_append,nothing]
    exact before
  | deliver apart waits =>
    rename_i batch
    rw [weigh_same (map_give (fun _ _ => rfl) system.start batch),← before]
    simp [State.give,total,Consumer.weigh]
  | answer outcome there first found =>
    rename_i c consumer i rest cell
    have one := total_set (Consumer.weigh weight) there
      (consumer.answered rest ⟨i,cell.message,cell.attempts,outcome⟩ (system.turn consumer.memory cell.message cell.attempts outcome).1)
    have two := total_set (Cell.weigh weight) found (cell.answered outcome (system.settles cell.attempts outcome))
    have own : (consumer.answered rest ⟨i,cell.message,cell.attempts,outcome⟩
        (system.turn consumer.memory cell.message cell.attempts outcome).1).weigh weight =
        consumer.weigh weight+weight cell.message cell.attempts outcome := by
      simp [Consumer.weigh,Consumer.answered,total]
    have its : (cell.answered outcome (system.settles cell.attempts outcome)).weigh weight =
        cell.weigh weight+weight cell.message cell.attempts outcome := by
      simp [Cell.weigh,Cell.answered,total]
    dsimp only
    omega
  | lose there =>
    rename_i c consumer
    have one := total_set (Consumer.weigh weight) there { consumer with left := [], lost := true }
    have own : Consumer.weigh weight { consumer with left := [], lost := true } = consumer.weigh weight := rfl
    rw [weigh_same (map_release (fun _ _ => rfl) c s.cells)]
    dsimp only
    omega
  | expire found waits =>
    refine before.trans (weigh_same ?_ weight).symm
    exact map_set found rfl

-- No step but an acceptance brings messages in, and none takes any out.
theorem messages_kept (stepped : step system s event = some t) (quiet : ∀ messages, event ≠ .accept messages) :
    t.cells.map Cell.message = s.cells.map Cell.message := by
  cases event with
  | accept messages => exact absurd rfl (quiet messages)
  | deliver batch =>
    simp only [step] at stepped
    split at stepped
    · cases stepped
      refine List.ext_getElem (by simp [State.give]) ?_
      intro i _ _
      simp only [State.give,List.getElem_map,List.getElem_mapIdx]
      split <;> rfl
    · cases stepped
  | answer c outcome =>
    obtain ⟨consumer,there,rest_⟩ := Option.bind_eq_some_iff.mp stepped
    split at rest_
    · cases rest_
    · obtain ⟨cell,found,made⟩ := Option.bind_eq_some_iff.mp rest_
      cases made
      exact map_set found rfl
  | lose c =>
    obtain ⟨consumer,there,made⟩ := Option.bind_eq_some_iff.mp stepped
    cases made
    exact map_release (fun _ _ => rfl) c s.cells
  | expire i =>
    obtain ⟨cell,found,made⟩ := Option.bind_eq_some_iff.mp stepped
    split at made
    · cases made
      exact map_set found rfl
    · cases made

theorem opened_sound : Sound system (opened : State μ ω γ) where
  cells := by simp [opened]
  consumers := by simp [opened]
  apart := by simp [opened]
  held := by simp [State.stageAt,State.leftOf,opened]
  balanced := fun _ => rfl

theorem step_sound (sound : Sound system s) (stepped : step system s event = some t) : Sound system t := by
  have turn := step_turn stepped
  exact ⟨cells_turn sound turn,consumers_turn sound turn,apart_turn sound turn,held_turn sound turn,balanced_turn sound turn⟩

-- What every turn adds to a number that consumers remember, all outcomes add
-- up to over the messages.
section Measures
variable (measure : γ → Nat) (weight : μ → Nat → ω → Nat)

theorem measure_answers (adds : ∀ memory message attempt outcome,
      measure (system.turn memory message attempt outcome).1 = measure memory+weight message attempt outcome)
    (answers : List (Answer μ ω)) (memory : γ) :
    measure (answers.foldl (fun memory answer => (system.turn memory answer.message answer.attempt answer.outcome).1) memory) =
      measure memory+total (fun answer => weight answer.message answer.attempt answer.outcome) answers := by
  induction answers generalizing memory with
  | nil => rfl
  | cons answer answers ih =>
    rw [List.foldl_cons,ih,adds,total,total,List.map_cons,List.sum_cons]
    omega

theorem measure_memory (adds : ∀ memory message attempt outcome,
      measure (system.turn memory message attempt outcome).1 = measure memory+weight message attempt outcome)
    (zero : measure system.start = 0) {consumer : Consumer μ ω γ} (sound : consumer.Sound system) :
    measure consumer.memory = consumer.weigh weight := by
  rw [sound.remembers,measure_answers measure weight adds,zero,Nat.zero_add]
  rfl

theorem measures_agree (adds : ∀ memory message attempt outcome,
      measure (system.turn memory message attempt outcome).1 = measure memory+weight message attempt outcome)
    (zero : measure system.start = 0) (sound : Sound system s) :
    total (fun consumer => measure consumer.memory) s.consumers = total (Cell.weigh weight) s.cells := by
  rw [← sound.balanced weight]
  refine congrArg List.sum (List.map_congr_left ?_)
  intro consumer member
  exact measure_memory measure weight adds zero (sound.consumers consumer member)

end Measures

-- The outcome that has settled a message.
def Cell.last (cell : Cell μ ω) : Option (Nat × ω) := if cell.stage = .settled then cell.outcomes.getLast? else none

theorem total_none {f : α → Nat} {items : List α} (nothing : ∀ item ∈ items, f item = 0) : total f items = 0 := by
  rw [total,List.map_congr_left nothing]
  simp

theorem total_counts (p : α → Bool) (items : List α) : total (fun item => if p item then 1 else 0) items = items.countP p := by
  induction items with
  | nil => rfl
  | cons item items ih =>
    rw [total] at ih
    rw [total,List.map_cons,List.sum_cons,ih,List.countP_cons,Nat.add_comm]

-- Where only settling outcomes count, the last one counts at most.
theorem weigh_last {cell : Cell μ ω} (sound : cell.Sound settles) {holds : μ → Nat → ω → Bool}
    (ends : ∀ message attempt outcome, holds message attempt outcome = true → settles attempt outcome = true) :
    cell.weigh (fun message attempt outcome => if holds message attempt outcome then 1 else 0) =
      if cell.last.any fun outcome => holds cell.message outcome.1 outcome.2 then 1 else 0 := by
  have nothing (outcome : Nat × ω) (again : settles outcome.1 outcome.2 = false) : holds cell.message outcome.1 outcome.2 = false := by
    cases counts : holds cell.message outcome.1 outcome.2 with
    | false => rfl
    | true => rw [ends _ _ _ counts] at again; cases again
  rw [Cell.weigh,Cell.last]
  by_cases closed : cell.stage = .settled
  · obtain ⟨earlier,last,parts,-,unsettled⟩ := sound.settled closed
    rw [if_pos closed,parts,total_append,total_none fun outcome member => by simp [nothing outcome (unsettled outcome member)],
      List.getLast?_concat]
    simp [total]
  · rw [if_neg closed]
    exact total_none fun outcome member => by simp [nothing outcome (sound.unsettled closed outcome member)]

-- What consumers count of the outcomes that settle messages is the number of
-- messages that were settled so.
theorem counts_agree (measure : γ → Nat) (holds : μ → Nat → ω → Bool)
    (adds : ∀ memory message attempt outcome, measure (system.turn memory message attempt outcome).1 =
      measure memory+if holds message attempt outcome then 1 else 0) (zero : measure system.start = 0)
    (ends : ∀ message attempt outcome, holds message attempt outcome = true → system.settles attempt outcome = true) (sound : Sound system s) :
    total (fun consumer => measure consumer.memory) s.consumers =
      s.cells.countP fun cell => cell.last.any fun outcome => holds cell.message outcome.1 outcome.2 := by
  rw [measures_agree measure _ adds zero sound,← total_counts]
  refine congrArg List.sum (List.map_congr_left ?_)
  intro cell member
  exact weigh_last (sound.cells cell member) ends

end Deliveries
