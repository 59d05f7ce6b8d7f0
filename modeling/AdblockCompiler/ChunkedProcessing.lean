import AdblockCompiler.Hosts
import AdblockCompiler.Promises

-- processInChunks of the queue consumer: the items of one chunk at the same
-- time, the chunks one after the other.
namespace AdblockCompiler.Chunks
open JsText Schedules

-- What a call is rejected with: an Error, or another value with its String.
inductive Reason where
  | error (message : Text)
  | other (text : Text)
  deriving DecidableEq, Repr

def Reason.errorMessage : Reason → Text
  | .error message => message
  | .other text => text

inductive PromiseSettledResult where
  | fulfilled
  | rejected (reason : Reason)
  deriving DecidableEq, Repr

-- A place of chunk.map.
inductive Call where
  | uncalled | running
  | settled (result : PromiseSettledResult)
  deriving DecidableEq, Repr

def Call.result : Call → Option PromiseSettledResult
  | .settled result => some result
  | _ => none

structure Failure where
  item : Text
  error : Text
  deriving DecidableEq, Repr

structure Stats where
  successful : Nat
  failed : Nat
  failures : List Failure
  deriving DecidableEq, Repr

inductive Control where
  | looping
  | awaiting (calls : List Call)
  | returned
  deriving DecidableEq, Repr

structure State where
  i : Nat
  stats : Stats
  control : Control
  deriving DecidableEq, Repr

-- index is the place of an item in the whole list.
inductive Event where
  | enter
  | call (index : Nat)
  | settle (index : Nat)
  | collect
  deriving DecidableEq, Repr

def initial : State := ⟨0,⟨0,0,[]⟩,.looping⟩

section Processing
variable {Item : Type} (items : List Item) (chunkSize : Nat) (processor : Nat → PromiseSettledResult) (getItemId : Option (Item → Text))

-- items.slice(i, i+chunkSize)
def chunk (i : Nat) : List Item := (items.drop i).take chunkSize

def itemId (item : Item) (index : Nat) : Text :=
  match getItemId with
  | some getItemId => getItemId item
  | none => "item-".toList ++ Hosts.decimal index

-- The callback of results.forEach.
def count (i : Nat) (stats : Stats) (row : (Item × PromiseSettledResult) × Nat) : Stats :=
  match row.1.2 with
  | .fulfilled => { stats with successful := stats.successful+1 }
  | .rejected reason => {
      stats with
      failed := stats.failed+1
      failures := stats.failures ++ [⟨itemId getItemId row.1.1 (i+row.2),reason.errorMessage⟩] }

def tally (i : Nat) (results : List PromiseSettledResult) (stats : Stats) : Stats :=
  ((chunk items chunkSize i).zip results).zipIdx.foldl (count getItemId i) stats

-- processor is what the call for the item at an index comes to. The calls of a
-- chunk are made in order, and each may settle at any time after.
def step (s : State) : Event → Option State
  | .enter =>
    match s.control with
    | .looping =>
      if s.i < items.length then some { s with control := .awaiting ((chunk items chunkSize s.i).map fun _ => .uncalled) }
      else some { s with control := .returned }
    | _ => none
  | .call index =>
    match s.control with
    | .awaiting calls =>
      if s.i ≤ index ∧ calls[index-s.i]? = some .uncalled ∧ .uncalled ∉ calls.take (index-s.i) then
        some { s with control := .awaiting (calls.set (index-s.i) .running) }
      else none
    | _ => none
  | .settle index =>
    match s.control with
    | .awaiting calls =>
      if s.i ≤ index ∧ calls[index-s.i]? = some .running then
        some { s with control := .awaiting (calls.set (index-s.i) (.settled (processor index))) }
      else none
    | _ => none
  | .collect =>
    match s.control with
    | .awaiting calls =>
      (calls.mapM Call.result).map fun results => ⟨s.i+chunkSize,tally items chunkSize getItemId s.i results s.stats,.looping⟩
    | _ => none

-- What processBatchCompileMessage throws behind its processInChunks, in chunks
-- of three under the names of the configurations.
def batchError (batchSize : Nat) (stats : Stats) : Option Text :=
  if 0 < stats.failed then
    some ("Batch partially failed: ".toList ++ Hosts.decimal stats.failed ++ '/' :: (Hosts.decimal batchSize ++
      " items failed. Failures: ".toList ++ [',',' '].intercalate (stats.failures.map Failure.item)))
  else none

def failureAt (row : Item × Nat) : Option Failure :=
  match processor row.2 with
  | .fulfilled => none
  | .rejected reason => some ⟨itemId getItemId row.1 row.2,reason.errorMessage⟩

-- The failures of some items, the first of which is at an index.
def failuresOf (first : Nat) (part : List Item) : List Failure := (part.zipIdx first).filterMap (failureAt processor getItemId)

end Processing

def Event.called? : Event → Option Nat
  | .call index => some index
  | _ => none

def Event.settled? : Event → Option Nat
  | .settle index => some index
  | _ => none

def calledOf (events : List Event) : List Nat := events.filterMap Event.called?

def settledOf (events : List Event) : List Nat := events.filterMap Event.settled?

-- What a run of some steps has done, wherever it has come to.
structure Visits {Item : Type} (items : List Item) (chunkSize : Nat) (processor : Nat → PromiseSettledResult)
    (getItemId : Option (Item → Text)) (events : List Event) (s : State) : Prop where
  inOrder : ∃ k ≤ items.length, calledOf events = List.range k
  settled : (settledOf events).Nodup ∧ settledOf events ⊆ calledOf events
  few : (calledOf events).length ≤ (settledOf events).length + chunkSize
  chunks : ∀ before index after, events = before ++ .call index :: after →
    ∀ earlier < index / chunkSize * chunkSize, earlier ∈ settledOf before
  bounded : events.length ≤ 4*items.length+1
  goesOn : s.control ≠ .returned → ∃ event next, step items chunkSize processor getItemId s event = some next
  returned : s.control = .returned → calledOf events = List.range items.length ∧ s.stats.successful + s.stats.failed = items.length ∧
    s.stats.failed = s.stats.failures.length ∧ s.stats.failures = failuresOf processor getItemId 0 items

section Tally
variable {Item : Type} {items : List Item} {chunkSize : Nat} {processor : Nat → PromiseSettledResult} {getItemId : Option (Item → Text)}

-- What results.forEach adds.
theorem count_chunk (part : List Item) (i k : Nat) (stats : Stats) :
    let after := ((part.zip ((List.range' (i+k) part.length).map processor)).zipIdx k).foldl (count getItemId i) stats
    after.successful + after.failed = stats.successful + stats.failed + part.length ∧
      after.failed = stats.failed + (failuresOf processor getItemId (i+k) part).length ∧
      after.failures = stats.failures ++ failuresOf processor getItemId (i+k) part := by
  induction part generalizing k stats with
  | nil => simp [failuresOf]
  | cons item rest ih =>
    have later := ih (k+1) (count getItemId i stats ((item,processor (i+k)),k))
    dsimp only at later ⊢
    simp only [List.length_cons,List.range'_succ,List.map_cons,List.zip_cons_cons,List.zipIdx_cons,List.foldl_cons]
    rw [show i+k+1 = i+(k+1) from Nat.add_assoc i k 1,later.1,later.2.1,later.2.2]
    simp only [failuresOf,List.zipIdx_cons,List.filterMap_cons,failureAt,count,show i+k+1 = i+(k+1) from Nat.add_assoc i k 1]
    cases processor (i+k) with
    | fulfilled => simp; omega
    | rejected reason => simp; omega

theorem failuresOf_append (first : Nat) (front back : List Item) : failuresOf processor getItemId first (front ++ back) =
    failuresOf processor getItemId first front ++ failuresOf processor getItemId (first+front.length) back := by
  simp [failuresOf,List.zipIdx_append]

end Tally

section Logs

theorem calledOf_append (events : List Event) (event : Event) : calledOf (events ++ [event]) = calledOf events ++ event.called?.toList := by
  cases event <;> simp [calledOf,Event.called?]

theorem settledOf_append (events : List Event) (event : Event) : settledOf (events ++ [event]) = settledOf events ++ event.settled?.toList := by
  cases event <;> simp [settledOf,Event.settled?]

-- The other events leave both alone.
theorem calledOf_other (other : event.called? = none) : calledOf (events ++ [event]) = calledOf events := by
  rw [calledOf_append,other,Option.toList_none,List.append_nil]

theorem settledOf_other (other : event.settled? = none) : settledOf (events ++ [event]) = settledOf events := by
  rw [settledOf_append,other,Option.toList_none,List.append_nil]

def Event.turns : Event → Bool
  | .enter | .collect => true
  | _ => false

theorem events_length (events : List Event) :
    events.length = (calledOf events).length + (settledOf events).length + events.countP Event.turns := by
  induction events with
  | nil => rfl
  | cons event rest ih =>
    simp only [calledOf,settledOf,List.filterMap_cons,List.countP_cons,List.length_cons] at ih ⊢
    cases event with
    | enter => simp [Event.called?,Event.settled?,Event.turns]; omega
    | call index => simp [Event.called?,Event.settled?,Event.turns]; omega
    | settle index => simp [Event.called?,Event.settled?,Event.turns]; omega
    | collect => simp [Event.called?,Event.settled?,Event.turns]; omega

end Logs

-- Between two chunks: the items before an index have been called and have
-- settled.
structure Rests (events : List Event) (k : Nat) : Prop where
  called : calledOf events = List.range k
  settled : ∀ index, index ∈ settledOf events ↔ index < k

-- Inside a chunk, the first of whose calls have been made.
structure Awaits {Item : Type} (items : List Item) (chunkSize : Nat) (processor : Nat → PromiseSettledResult) (events : List Event) (i : Nat)
    (calls : List Call) (launched : Nat) : Prop where
  inside : i < items.length
  size : calls.length = (chunk items chunkSize i).length
  enough : launched ≤ calls.length
  called : calledOf events = List.range (i+launched)
  uncalled : ∀ idx, calls[idx]? = some .uncalled ↔ launched ≤ idx ∧ idx < calls.length
  settled : ∀ index, index ∈ settledOf events ↔ index < i ∨ i ≤ index ∧ ∃ result, calls[index-i]? = some (.settled result)
  results : ∀ idx result, calls[idx]? = some (.settled result) → result = processor (i+idx)

structure Tallied {Item : Type} (processor : Nat → PromiseSettledResult) (getItemId : Option (Item → Text)) (part : List Item) (stats : Stats) : Prop where
  total : stats.successful + stats.failed = part.length
  failed : stats.failed = stats.failures.length
  failures : stats.failures = failuresOf processor getItemId 0 part

def Placed {Item : Type} (items : List Item) (chunkSize : Nat) (processor : Nat → PromiseSettledResult) (events : List Event) (s : State) : Prop :=
  match s.control with
  | .looping => Rests events (min s.i items.length) ∧ events.countP Event.turns ≤ 2 * min s.i items.length
  | .awaiting calls => (∃ launched, Awaits items chunkSize processor events s.i calls launched) ∧ events.countP Event.turns ≤ 2*s.i+1
  | .returned => Rests events items.length ∧ items.length ≤ s.i ∧ events.countP Event.turns ≤ 2*items.length+1

structure History {Item : Type} (items : List Item) (chunkSize : Nat) (processor : Nat → PromiseSettledResult)
    (getItemId : Option (Item → Text)) (events : List Event) (s : State) : Prop where
  aligned : chunkSize ∣ s.i
  tallied : Tallied processor getItemId (items.take s.i) s.stats
  once : (settledOf events).Nodup
  placed : Placed items chunkSize processor events s

section Steps
variable {Item : Type} {items : List Item} {chunkSize : Nat} {processor : Nat → PromiseSettledResult} {getItemId : Option (Item → Text)}

theorem initial_history : History items chunkSize processor getItemId [] initial where
  aligned := Nat.dvd_zero chunkSize
  tallied := ⟨rfl,rfl,rfl⟩
  once := List.nodup_nil
  placed := by
    refine ⟨⟨?_,?_⟩,?_⟩
    · simp [calledOf,initial]
    · simp [settledOf,initial]
    · simp

theorem chunk_length (i : Nat) : (chunk items chunkSize i).length = min chunkSize (items.length-i) := by
  rw [chunk,List.length_take,List.length_drop]

-- Nothing of a chunk has been called where the loop comes to it.
theorem enter_awaits (rests : Rests events i) (inside : i < items.length) :
    Awaits items chunkSize processor (events ++ [.enter]) i ((chunk items chunkSize i).map fun _ => .uncalled) 0 where
  inside := inside
  size := List.length_map _
  enough := Nat.zero_le _
  called := by
    rw [calledOf_other rfl]
    simpa using rests.called
  uncalled := by
    intro idx
    simp [List.getElem?_eq_some_iff]
  settled := by
    intro index
    rw [settledOf_other rfl]
    simp [rests.settled,List.getElem?_replicate]
  results := by
    intro idx result found
    simp [List.getElem?_replicate] at found

theorem call_awaits (awaits : Awaits items chunkSize processor events i calls launched) (from_ : i ≤ index)
    (found : calls[index-i]? = some .uncalled) (first : Call.uncalled ∉ calls.take (index-i)) :
    Awaits items chunkSize processor (events ++ [.call index]) i (calls.set (index-i) .running) (launched+1) := by
  obtain ⟨past,inside⟩ := (awaits.uncalled _).mp found
  have here : index-i = launched := by
    by_contra other
    have before : launched < index-i := by omega
    have unmade : calls[launched]? = some .uncalled := (awaits.uncalled launched).mpr ⟨Nat.le_refl _,by omega⟩
    apply first
    rw [List.mem_iff_getElem?]
    refine ⟨launched,?_⟩
    rw [List.getElem?_take_of_lt before,unmade]
  refine ⟨awaits.inside,?_,?_,?_,?_,?_,?_⟩
  · rw [List.length_set,awaits.size]
  · rw [List.length_set]
    omega
  · have this : index = i+launched := by omega
    rw [calledOf_append,awaits.called]
    simp [Event.called?,this,← Nat.add_assoc,List.range_succ]
  · intro idx
    rw [List.length_set,List.getElem?_set]
    by_cases same : index-i = idx
    · rw [if_pos same]
      simp [inside]
      omega
    · rw [if_neg same,awaits.uncalled]
      omega
  · intro other
    rw [settledOf_other rfl]
    simp only [awaits.settled,List.getElem?_set]
    obtain ⟨_,value⟩ := List.getElem?_eq_some_iff.mp found
    by_cases same : index-i = other-i
    · simp [← same,inside,value]
    · simp [same]
  · intro idx result own
    rw [List.getElem?_set] at own
    by_cases same : index-i = idx
    · simp [same] at own
    · rw [if_neg same] at own
      exact awaits.results idx result own

theorem settle_awaits (awaits : Awaits items chunkSize processor events i calls launched) (from_ : i ≤ index)
    (found : calls[index-i]? = some .running) :
    Awaits items chunkSize processor (events ++ [.settle index]) i (calls.set (index-i) (.settled (processor index))) launched ∧
      index ∉ settledOf events := by
  obtain ⟨inside,value⟩ := List.getElem?_eq_some_iff.mp found
  have called : ¬(launched ≤ index-i ∧ index-i < calls.length) := by
    rw [← awaits.uncalled,found]
    simp
  refine ⟨⟨awaits.inside,?_,?_,?_,?_,?_,?_⟩,?_⟩
  · rw [List.length_set,awaits.size]
  · rw [List.length_set]
    exact awaits.enough
  · rw [calledOf_other rfl,awaits.called]
  · intro idx
    rw [List.length_set,List.getElem?_set]
    by_cases same : index-i = idx
    · rw [if_pos same]
      simp [inside]
      omega
    · rw [if_neg same,awaits.uncalled]
  · intro other
    rw [settledOf_append]
    simp only [Event.settled?,Option.toList_some,List.mem_append,List.mem_singleton,awaits.settled,List.getElem?_set]
    by_cases same : index-i = other-i
    · simp [← same,inside,value]
      omega
    · have apart : other ≠ index := fun equal => same (congrArg (· - i) equal.symm)
      simp [same,apart]
  · intro idx result own
    rw [List.getElem?_set] at own
    by_cases same : index-i = idx
    · rw [if_pos same,if_pos inside] at own
      have this : i+idx = index := by omega
      rw [this]
      exact (Call.settled.inj (Option.some.inj own)).symm
    · rw [if_neg same] at own
      exact awaits.results idx result own
  · rw [awaits.settled]
    simp [from_,found]

-- What Promise.allSettled comes to.
theorem mapM_result {calls : List Call} : calls.mapM Call.result = some results ↔ calls = results.map .settled := by
  induction calls generalizing results with
  | nil => cases results <;> simp
  | cons call calls ih =>
    rw [List.mapM_cons]
    cases call with
    | uncalled => cases results <;> simp [Call.result]
    | running => cases results <;> simp [Call.result]
    | settled result =>
      cases results with
      | nil => simp [Call.result,Option.bind_eq_some_iff]
      | cons first rest =>
        simp [Call.result,Option.bind_eq_some_iff,ih,and_comm]

theorem collect_results (awaits : Awaits items chunkSize processor events i calls launched) (all : calls.mapM Call.result = some results) :
    results = (List.range' i (chunk items chunkSize i).length).map processor := by
  have settled := mapM_result.mp all
  have size : results.length = (chunk items chunkSize i).length := by
    rw [← awaits.size,settled,List.length_map]
  apply List.ext_getElem
  · rw [List.length_map,List.length_range',size]
  · intro idx inside _
    have own : calls[idx]? = some (.settled results[idx]) := by
      rw [settled]
      simp [inside]
    simpa using awaits.results idx _ own

theorem collect_rests (awaits : Awaits items chunkSize processor events i calls launched) (all : calls.mapM Call.result = some results) :
    Rests (events ++ [.collect]) (i+calls.length) where
  called := by
    have whole : launched = calls.length := by
      apply Nat.le_antisymm awaits.enough
      by_contra fewer
      have unmade := (awaits.uncalled launched).mpr ⟨Nat.le_refl _,by omega⟩
      rw [mapM_result.mp all] at unmade
      simp at unmade
    rw [calledOf_other rfl,awaits.called,whole]
  settled := by
    intro index
    rw [settledOf_other rfl]
    simp only [awaits.settled]
    have settled := mapM_result.mp all
    have size := congrArg List.length settled
    rw [List.length_map] at size
    constructor
    · intro either
      obtain before | ⟨from_,result,found⟩ := either
      · omega
      · obtain ⟨inside,-⟩ := List.getElem?_eq_some_iff.mp found
        omega
    · intro inside
      by_cases before : index < i
      · exact .inl before
      · have here : index-i < results.length := by omega
        refine .inr ⟨by omega,results[index-i],?_⟩
        rw [settled]
        simp [here]

theorem tally_tallied (tallied : Tallied processor getItemId (items.take i) stats) (inside : i < items.length) :
    Tallied processor getItemId (items.take (i+chunkSize))
      (tally items chunkSize getItemId i ((List.range' i (chunk items chunkSize i).length).map processor) stats) := by
  have whole : items.take (i+chunkSize) = items.take i ++ chunk items chunkSize i := List.take_add
  have front : (items.take i).length = i := List.length_take_of_le (Nat.le_of_lt inside)
  obtain ⟨total,failed,failures⟩ := @count_chunk _ processor getItemId (chunk items chunkSize i) i 0 stats
  rw [Nat.add_zero] at total failed failures
  rw [whole]
  refine ⟨?_,?_,?_⟩
  · rw [tally,total,tallied.total,List.length_append]
  · rw [tally,failed,failures,List.length_append,tallied.failed]
  · rw [tally,failures,tallied.failures,failuresOf_append,front,Nat.zero_add]

theorem countP_append_turn (events : List Event) (event : Event) :
    (events ++ [event]).countP Event.turns = events.countP Event.turns + if event.turns then 1 else 0 := by
  cases event <;> simp [Event.turns]

theorem enter_history (history : History items chunkSize processor getItemId events ⟨i,stats,.looping⟩)
    (stepped : step items chunkSize processor getItemId ⟨i,stats,.looping⟩ .enter = some next) :
    History items chunkSize processor getItemId (events ++ [.enter]) next := by
  obtain ⟨aligned,tallied,once,rests,turns⟩ := history
  have same : settledOf (events ++ [.enter]) = settledOf events := settledOf_other rfl
  simp only [step] at stepped
  split at stepped
  · next inside =>
    obtain rfl := Option.some.inj stepped
    dsimp only at rests turns inside
    rw [Nat.min_eq_left (Nat.le_of_lt inside)] at rests turns
    refine ⟨aligned,tallied,same ▸ once,⟨0,enter_awaits rests inside⟩,?_⟩
    rw [countP_append_turn]
    simp only [Event.turns,if_true]
    omega
  · next outside =>
    obtain rfl := Option.some.inj stepped
    dsimp only at rests turns outside
    rw [Nat.min_eq_right (by omega)] at rests turns
    refine ⟨aligned,tallied,same ▸ once,⟨?_,?_⟩,by dsimp only; omega,?_⟩
    · rw [calledOf_other rfl]
      exact rests.called
    · rw [same]
      exact rests.settled
    · rw [countP_append_turn]
      simp only [Event.turns,if_true]
      omega

section Awaiting
variable (history : History items chunkSize processor getItemId events ⟨i,stats,.awaiting calls⟩)
include history

theorem call_history (from_ : i ≤ index) (found : calls[index-i]? = some .uncalled) (first : Call.uncalled ∉ calls.take (index-i)) :
    History items chunkSize processor getItemId (events ++ [.call index]) ⟨i,stats,.awaiting (calls.set (index-i) .running)⟩ := by
  obtain ⟨aligned,tallied,once,⟨launched,awaits⟩,turns⟩ := history
  refine ⟨aligned,tallied,?_,⟨launched+1,call_awaits awaits from_ found first⟩,?_⟩
  · rwa [settledOf_other rfl]
  · rw [countP_append_turn]
    simpa [Event.turns] using turns

theorem settle_history (from_ : i ≤ index) (found : calls[index-i]? = some .running) :
    History items chunkSize processor getItemId (events ++ [.settle index])
      ⟨i,stats,.awaiting (calls.set (index-i) (.settled (processor index)))⟩ := by
  obtain ⟨aligned,tallied,once,⟨launched,awaits⟩,turns⟩ := history
  obtain ⟨after,fresh⟩ := settle_awaits awaits from_ found
  refine ⟨aligned,tallied,?_,⟨launched,after⟩,?_⟩
  · rw [settledOf_append]
    refine List.nodup_append.mpr ⟨once,List.nodup_singleton index,?_⟩
    intro other member new last equal
    obtain rfl := List.mem_singleton.mp last
    exact fresh (equal ▸ member)
  · rw [countP_append_turn]
    simpa [Event.turns] using turns

theorem collect_history (some_ : 1 ≤ chunkSize) (all : calls.mapM Call.result = some results) :
    History items chunkSize processor getItemId (events ++ [.collect])
      ⟨i+chunkSize,tally items chunkSize getItemId i results stats,.looping⟩ := by
  obtain ⟨aligned,tallied,once,⟨launched,awaits⟩,turns⟩ := history
  have rests := collect_rests awaits all
  have size := awaits.size
  have inside := awaits.inside
  rw [chunk_length] at size
  dsimp only at size inside turns
  have reached : i+calls.length = min (i+chunkSize) items.length := by omega
  rw [reached] at rests
  refine ⟨(Nat.dvd_add_right aligned).mpr (Nat.dvd_refl chunkSize),?_,?_,rests,?_⟩
  · rw [collect_results awaits all]
    exact tally_tallied tallied inside
  · rwa [settledOf_other rfl]
  · rw [countP_append_turn]
    simp only [Event.turns,if_true]
    omega

end Awaiting

-- Each step keeps what the run has done.
theorem step_history (some_ : 1 ≤ chunkSize) (history : History items chunkSize processor getItemId events s)
    (stepped : step items chunkSize processor getItemId s event = some next) :
    History items chunkSize processor getItemId (events ++ [event]) next := by
  obtain ⟨i,stats,control⟩ := s
  cases control with
  | looping =>
    cases event with
    | enter => exact enter_history history stepped
    | call index => cases stepped
    | settle index => cases stepped
    | collect => cases stepped
  | returned => cases event <;> cases stepped
  | awaiting calls =>
    cases event with
    | enter => cases stepped
    | call index =>
      simp only [step] at stepped
      split at stepped
      · next may =>
        obtain rfl := Option.some.inj stepped
        exact call_history history may.1 may.2.1 may.2.2
      · cases stepped
    | settle index =>
      simp only [step] at stepped
      split at stepped
      · next may =>
        obtain rfl := Option.some.inj stepped
        exact settle_history history may.1 may.2
      · cases stepped
    | collect =>
      obtain ⟨results,all,rfl⟩ := Option.map_eq_some_iff.mp stepped
      exact collect_history history some_ all

-- A run that has not returned can go on.
theorem history_goesOn (history : History items chunkSize processor getItemId events s) (waits : s.control ≠ .returned) :
    ∃ event next, step items chunkSize processor getItemId s event = some next := by
  obtain ⟨i,stats,control⟩ := s
  have placed := history.placed
  cases control with
  | returned => exact absurd rfl waits
  | looping =>
    refine ⟨.enter,?_⟩
    simp only [step]
    split
    · exact ⟨_,rfl⟩
    · exact ⟨_,rfl⟩
  | awaiting calls =>
    obtain ⟨⟨launched,awaits⟩,-⟩ := placed
    by_cases fewer : launched < calls.length
    · have here : i+launched-i = launched := by omega
      have unmade := (awaits.uncalled launched).mpr ⟨Nat.le_refl _,fewer⟩
      have first : Call.uncalled ∉ calls.take launched := by
        intro member
        obtain ⟨idx,found⟩ := List.mem_iff_getElem?.mp member
        obtain ⟨before,-⟩ := List.getElem?_eq_some_iff.mp found
        rw [List.length_take] at before
        rw [List.getElem?_take_of_lt (by omega)] at found
        have past := (awaits.uncalled idx).mp found
        omega
      refine ⟨.call (i+launched),_,if_pos ⟨Nat.le_add_right _ _,?_,?_⟩⟩
      · rw [here]
        exact unmade
      · rw [here]
        exact first
    · by_cases busy : .running ∈ calls
      · obtain ⟨idx,found⟩ := List.mem_iff_getElem?.mp busy
        have here : i+idx-i = idx := by omega
        refine ⟨.settle (i+idx),_,if_pos ⟨Nat.le_add_right _ _,?_⟩⟩
        rw [here]
        exact found
      · have all : ∃ results, calls.mapM Call.result = some results := by
          apply Promises.mapM_exists
          intro call member
          cases call with
          | settled result => exact ⟨result,rfl⟩
          | running => exact absurd member busy
          | uncalled =>
            obtain ⟨idx,found⟩ := List.mem_iff_getElem?.mp member
            have past := (awaits.uncalled idx).mp found
            omega
        obtain ⟨results,all⟩ := all
        exact ⟨.collect,_,Option.map_eq_some_iff.mpr ⟨results,all,rfl⟩⟩

-- How far the calls have got in a state, and what of them has settled.
structure Bounds (chunkSize : Nat) (events : List Event) (k : Nat) : Prop where
  called : calledOf events = List.range k
  settled : settledOf events ⊆ List.range k
  near : ∃ j, k ≤ j + chunkSize ∧ List.range j ⊆ settledOf events

theorem rests_bounds (rests : Rests events k) : Bounds chunkSize events k := by
  refine ⟨rests.called,?_,k,Nat.le_add_right _ _,?_⟩
  · intro index member
    exact List.mem_range.mpr ((rests.settled index).mp member)
  · intro index member
    exact (rests.settled index).mpr (List.mem_range.mp member)

theorem history_called (history : History items chunkSize processor getItemId events s) : ∃ k ≤ items.length, Bounds chunkSize events k := by
  obtain ⟨i,stats,control⟩ := s
  have placed := history.placed
  cases control with
  | looping => exact ⟨_,Nat.min_le_right _ _,rests_bounds placed.1⟩
  | returned => exact ⟨_,Nat.le_refl _,rests_bounds placed.1⟩
  | awaiting calls =>
    obtain ⟨⟨launched,awaits⟩,-⟩ := placed
    have size := awaits.size
    have inside := awaits.inside
    have enough := awaits.enough
    rw [chunk_length] at size
    dsimp only at size inside
    refine ⟨_,?_,⟨awaits.called,?_,i,?_,?_⟩⟩
    · dsimp only
      omega
    · intro index member
      apply List.mem_range.mpr
      obtain before | ⟨from_,result,found⟩ := (awaits.settled index).mp member
      · dsimp only at before ⊢
        omega
      · dsimp only at from_ found ⊢
        obtain ⟨within,-⟩ := List.getElem?_eq_some_iff.mp found
        have other : ¬(launched ≤ index-i ∧ index-i < calls.length) := by
          rw [← awaits.uncalled,found]
          simp
        omega
    · dsimp only
      omega
    · intro index member
      exact (awaits.settled index).mpr (.inl (List.mem_range.mp member))

theorem history_turns (history : History items chunkSize processor getItemId events s) : events.countP Event.turns ≤ 2*items.length+1 := by
  obtain ⟨i,stats,control⟩ := s
  have placed := history.placed
  cases control with
  | looping =>
    have turns := placed.2
    dsimp only at turns
    omega
  | returned => exact placed.2.2
  | awaiting calls =>
    obtain ⟨⟨launched,awaits⟩,turns⟩ := placed
    have inside := awaits.inside
    dsimp only at inside turns
    omega

-- Where a call is made, every chunk before its own has settled.
theorem called_after (some_ : 1 ≤ chunkSize) (history : History items chunkSize processor getItemId before s)
    (stepped : step items chunkSize processor getItemId s (.call index) = some next) :
    ∀ earlier < index / chunkSize * chunkSize, earlier ∈ settledOf before := by
  obtain ⟨i,stats,control⟩ := s
  have placed := history.placed
  cases control with
  | looping => cases stepped
  | returned => cases stepped
  | awaiting calls =>
    obtain ⟨⟨launched,awaits⟩,-⟩ := placed
    simp only [step] at stepped
    split at stepped
    · next may =>
      obtain ⟨q,multiple⟩ := history.aligned
      obtain ⟨within,-⟩ := List.getElem?_eq_some_iff.mp may.2.1
      have size := awaits.size
      rw [chunk_length] at size
      have from_ := may.1
      dsimp only at multiple within size from_
      have inside : index < (q+1)*chunkSize := by
        rw [Nat.succ_mul,Nat.mul_comm q,← multiple]
        omega
      have number : index / chunkSize ≤ q := Nat.le_of_lt_succ ((Nat.div_lt_iff_lt_mul some_).mpr inside)
      intro earlier sooner
      apply (awaits.settled earlier).mpr
      left
      dsimp only
      calc earlier < index / chunkSize * chunkSize := sooner
        _ ≤ q * chunkSize := Nat.mul_le_mul_right chunkSize number
        _ = i := by rw [Nat.mul_comm,multiple]
    · cases stepped

theorem run_history_kept (some_ : 1 ≤ chunkSize) (ran : run (step items chunkSize processor getItemId) initial events = some s) :
    History items chunkSize processor getItemId events s :=
  run_history (History items chunkSize processor getItemId) (fun _ _ _ _ history stepped => step_history some_ history stepped)
    initial_history ran

theorem failuresOf_nil : failuresOf processor getItemId 0 items = [] ↔ ∀ index < items.length, processor index = .fulfilled := by
  rw [failuresOf,List.filterMap_eq_nil_iff]
  constructor
  · intro all index inside
    have none_ := all (items[index],index) (by simp [List.mem_zipIdx_iff_getElem?,inside])
    unfold failureAt at none_
    split at none_
    · next own => exact own
    · cases none_
  · intro all row member
    have inside : row.2 < items.length := by
      obtain ⟨inside,-⟩ := List.getElem?_eq_some_iff.mp (List.mem_zipIdx_iff_getElem?.mp member)
      exact inside
    rw [failureAt,all row.2 inside]

-- A batch is rejected where one of its requests is.
theorem batch_rejected (ran : run (step items 3 processor getItemId) initial events = some s) (back : s.control = .returned) :
    batchError items.length s.stats = none ↔ ∀ index < items.length, processor index = .fulfilled := by
  have history := run_history_kept (by decide) ran
  obtain ⟨i,stats,control⟩ := s
  obtain rfl : control = .returned := back
  have tallied := history.tallied
  rw [List.take_of_length_le history.placed.2.1] at tallied
  have none_ : failuresOf processor getItemId 0 items = [] ↔ _ := failuresOf_nil
  rw [← none_,← tallied.failures,batchError,tallied.failed]
  cases stats.failures with
  | nil => simp
  | cons failure rest => simp

-- Every run, to any of its states: the calls made, those under way, and what is
-- returned.
theorem chunks_exact (items : List Item) (some_ : 1 ≤ chunkSize) (processor : Nat → PromiseSettledResult) (getItemId : Option (Item → Text))
    (ran : run (step items chunkSize processor getItemId) initial events = some s) :
    Visits items chunkSize processor getItemId events s := by
  have history := run_history_kept some_ ran
  obtain ⟨k,inside,called,settled,j,near,done⟩ := history_called history
  have calls : (calledOf events).length = k := by rw [called,List.length_range]
  have few : (settledOf events).length ≤ k := by
    have bound := (history.once.subperm settled).length_le
    rwa [List.length_range] at bound
  refine ⟨⟨k,inside,called⟩,⟨history.once,called ▸ settled⟩,?_,?_,?_,history_goesOn history,?_⟩
  · have bound := (List.nodup_range.subperm done).length_le
    rw [List.length_range] at bound
    omega
  · intro before index after whole
    rw [whole] at ran
    obtain ⟨middle,first,rest⟩ := run_append.mp ran
    obtain ⟨next,stepped,-⟩ := run_cons.mp rest
    exact called_after some_ (run_history_kept some_ first) stepped
  · have turns := history_turns history
    rw [events_length]
    omega
  · intro back
    obtain ⟨i,stats,control⟩ := s
    obtain rfl : control = .returned := back
    obtain ⟨rests,past,-⟩ := history.placed
    have tallied := history.tallied
    rw [List.take_of_length_le past] at tallied
    exact ⟨rests.called,tallied.total,tallied.failed,tallied.failures⟩

-- Three items in chunks of two, the second of which fails.
theorem pair_visits : Visits ['a','b','c'] 2 (fun index => if index = 1 then .rejected (.error ['n','o']) else .fulfilled) none
    [.enter,.call 0,.call 1,.settle 1,.settle 0,.collect,.enter,.call 2,.settle 2,.collect,.enter]
    ⟨4,⟨2,1,[⟨"item-1".toList,['n','o']⟩]⟩,.returned⟩ :=
  chunks_exact _ (by decide) _ _ (by decide)

end Steps

end AdblockCompiler.Chunks
