import AdblockCompiler.Schedules

-- A store that many parties change, each of which first looks, then changes a
-- key, and then enters in a log what it has changed. Nothing holds the three
-- together.
namespace ChangeLogs
open Schedules

structure Change (κ ρ : Type) where
  key : κ
  old : Option ρ
  new : Option ρ

-- What a list of changes makes of a store.
def replay [DecidableEq κ] (changes : List (Change κ ρ)) (store : κ → Option ρ) : κ → Option ρ :=
  changes.foldl (fun store change => Function.update store change.key change.new) store

-- Every change names what its key held when it came.
def Chained [DecidableEq κ] (changes : List (Change κ ρ)) (store : κ → Option ρ) : Prop :=
  ∀ before change after, changes = before ++ change :: after → change.old = replay before store change.key

section Replays
variable {κ ρ : Type} [DecidableEq κ]

theorem replay_append (first rest : List (Change κ ρ)) (store : κ → Option ρ) : replay (first ++ rest) store = replay rest (replay first store) :=
  List.foldl_append ..

theorem chained_nil (store : κ → Option ρ) : Chained [] store := by
  intro before change after parts
  simp at parts

theorem chained_next {changes : List (Change κ ρ)} (chained : Chained changes store) (current : change.old = replay changes store change.key) :
    Chained (changes ++ [change]) store := by
  intro before other after parts
  cases after using List.reverseRecOn with
  | nil =>
    obtain ⟨rfl,last⟩ := List.append_inj' parts rfl
    cases last
    exact current
  | append_singleton after last ih =>
    rw [← List.cons_append,← List.append_assoc] at parts
    exact chained before other after (List.append_inj' parts rfl).1

end Replays

-- What a party sees first, none when that makes it give up, and what it then
-- does to the store. δ is what a change takes from outside, its time for one.
structure System (ι σ κ ρ τ δ : Type) [DecidableEq κ] where
  look : σ → κ → Option ρ
  read : ι → σ → Option τ
  change : ι → τ → δ → σ → Option (σ × Change κ ρ)
  tells : ∀ party seen given s t made, change party seen given s = some (t,made) → look t = Function.update (look s) made.key made.new

inductive Stage (κ ρ τ : Type) where
  | waiting
  | read (seen : τ)
  | changed (change : Change κ ρ)
  | entered
  | ended

-- The journal is the history of the store, which no party keeps.
structure State (ι σ κ ρ τ : Type) where
  store : σ
  journal : List (ι × Change κ ρ)
  log : List (ι × Change κ ρ)
  stage : ι → Stage κ ρ τ

inductive Event (ι δ : Type) where
  | read (party : ι)
  | change (party : ι) (given : δ)
  | enter (party : ι)
  | stop (party : ι)

section Parties
variable {ι σ κ ρ τ δ : Type} [DecidableEq κ]

def opened (store : σ) : State ι σ κ ρ τ := ⟨store,[],[],fun _ => .waiting⟩

variable [DecidableEq ι] (system : System ι σ κ ρ τ δ)

def step (s : State ι σ κ ρ τ) : Event ι δ → Option (State ι σ κ ρ τ)
  | .read party =>
    match s.stage party with
    | .waiting => some { s with stage := Function.update s.stage party ((system.read party s.store).elim .ended .read) }
    | _ => none
  | .change party given =>
    match s.stage party with
    | .read seen =>
      match system.change party seen given s.store with
      | none => some { s with stage := Function.update s.stage party .ended }
      | some (store,made) =>
        some { s with store := store, journal := s.journal ++ [(party,made)], stage := Function.update s.stage party (.changed made) }
    | _ => none
  | .enter party =>
    match s.stage party with
    | .changed made => some { s with log := s.log ++ [(party,made)], stage := Function.update s.stage party .entered }
    | _ => none
  | .stop party =>
    match s.stage party with
    | .entered => none
    | _ => some { s with stage := Function.update s.stage party .ended }

-- All that a step can do.
inductive Turn (s : State ι σ κ ρ τ) : Event ι δ → State ι σ κ ρ τ → Prop where
  | read (waits : s.stage party = .waiting) :
      Turn s (.read party) { s with stage := Function.update s.stage party ((system.read party s.store).elim .ended .read) }
  | refuse (reads : s.stage party = .read seen) (none_ : system.change party seen given s.store = none) :
      Turn s (.change party given) { s with stage := Function.update s.stage party .ended }
  | change (reads : s.stage party = .read seen) (made : system.change party seen given s.store = some (store,change)) :
      Turn s (.change party given)
        { s with store := store, journal := s.journal ++ [(party,change)], stage := Function.update s.stage party (.changed change) }
  | enter (changed : s.stage party = .changed change) :
      Turn s (.enter party) { s with log := s.log ++ [(party,change)], stage := Function.update s.stage party .entered }
  | stop (unfinished : s.stage party ≠ .entered) : Turn s (.stop party) { s with stage := Function.update s.stage party .ended }

variable {system} {s t : State ι σ κ ρ τ} {event : Event ι δ}

theorem step_turn (stepped : step system s event = some t) : Turn system s event t := by
  cases event with
  | read party =>
    simp only [step] at stepped
    split at stepped
    · cases stepped
      exact .read ‹_›
    · cases stepped
  | change party given =>
    simp only [step] at stepped
    split at stepped
    · split at stepped
      · cases stepped
        exact .refuse ‹_› ‹_›
      · cases stepped
        exact .change ‹_› ‹_›
    · cases stepped
  | enter party =>
    simp only [step] at stepped
    split at stepped
    · cases stepped
      exact .enter ‹_›
    · cases stepped
  | stop party =>
    simp only [step] at stepped
    split at stepped
    · cases stepped
    · rename_i unfinished
      cases stepped
      exact .stop unfinished

-- What the journal and the log have to do with the store and the parties.
structure Told (system : System ι σ κ ρ τ δ) (start : σ) (s : State ι σ κ ρ τ) : Prop where
  replays : system.look s.store = replay (s.journal.map Prod.snd) (system.look start)
  once : (s.journal.map Prod.fst).Nodup
  listed : (s.log.map Prod.fst).Nodup
  entered : ∀ entry ∈ s.log, entry ∈ s.journal ∧ s.stage entry.1 = .entered
  owed : ∀ entry ∈ s.journal, s.stage entry.1 = .changed entry.2 ∨ s.stage entry.1 = .ended ∨ entry ∈ s.log
  pending : ∀ party change, s.stage party = .changed change → (party,change) ∈ s.journal
  fresh : ∀ party, s.stage party = .waiting ∨ (∃ seen, s.stage party = .read seen) → party ∉ s.journal.map Prod.fst

omit [DecidableEq ι] in
theorem told_opened (start : σ) : Told system start (opened start : State ι σ κ ρ τ) := by
  refine ⟨rfl,List.nodup_nil,List.nodup_nil,?_,?_,?_,?_⟩
  · intro entry member
    cases member
  · intro entry member
    cases member
  · intro party change changed
    cases changed
  · intro party _ member
    cases member

-- A party that has not entered its change moves on without one.
theorem told_moved (told : Told system start s) (unfinished : s.stage party ≠ .entered) {next : Stage κ ρ τ}
    (quiet : next = .ended ∨ party ∉ s.journal.map Prod.fst ∧ ∃ seen, next = .read seen) :
    Told system start { s with stage := Function.update s.stage party next } := by
  refine ⟨told.replays,told.once,told.listed,?_,?_,?_,?_⟩
  · intro entry member
    obtain ⟨held,entered⟩ := told.entered entry member
    have apart : entry.1 ≠ party := fun same => unfinished (same ▸ entered)
    exact ⟨held,(Function.update_of_ne apart _ _).trans entered⟩
  · intro entry member
    by_cases same : entry.1 = party
    · subst same
      obtain rfl | ⟨absent,-⟩ := quiet
      · exact .inr (.inl (Function.update_self ..))
      · exact absurd (List.mem_map_of_mem member) absent
    · simpa [Function.update_of_ne same] using told.owed entry member
  · intro other change changed
    by_cases same : other = party
    · subst same
      obtain rfl | ⟨-,seen,rfl⟩ := quiet
      · simp at changed
      · simp at changed
    · exact told.pending other change (by simpa [Function.update_of_ne same] using changed)
  · intro other early
    by_cases same : other = party
    · subst same
      obtain rfl | ⟨absent,-⟩ := quiet
      · simp at early
      · exact absent
    · exact told.fresh other (by simpa [Function.update_of_ne same] using early)

theorem told_changed (told : Told system start s) (reads : s.stage party = .read seen)
    (made : system.change party seen given s.store = some (store,change)) :
    Told system start ⟨store,s.journal ++ [(party,change)],s.log,Function.update s.stage party (.changed change)⟩ := by
  have absent := told.fresh party (.inr ⟨seen,reads⟩)
  refine ⟨?_,?_,told.listed,?_,?_,?_,?_⟩
  · have tells := system.tells party seen given s.store store change made
    simp only [List.map_append,replay_append]
    rw [tells,told.replays]
    rfl
  · rw [List.map_append]
    refine List.Nodup.append told.once (List.nodup_singleton _) ?_
    simpa using absent
  · intro entry member
    obtain ⟨held,entered⟩ := told.entered entry member
    have apart : entry.1 ≠ party := by
      intro same
      rw [same,reads] at entered
      cases entered
    exact ⟨List.mem_append_left _ held,(Function.update_of_ne apart _ _).trans entered⟩
  · refine forall_append ?_ (.inl (Function.update_self ..))
    intro entry member
    have apart : entry.1 ≠ party := fun same => absent (same ▸ List.mem_map_of_mem member)
    simpa [Function.update_of_ne apart] using told.owed entry member
  · intro other its changed
    by_cases same : other = party
    · subst same
      obtain rfl : change = its := by simpa using changed
      exact List.mem_append_right _ (List.mem_singleton_self _)
    · exact List.mem_append_left _ (told.pending other its (by simpa [Function.update_of_ne same] using changed))
  · intro other early
    by_cases same : other = party
    · subst same
      simp at early
    · have before := told.fresh other (by simpa [Function.update_of_ne same] using early)
      simp only [List.map_append,List.mem_append,not_or]
      exact ⟨before,by simpa using same⟩

theorem told_entered (told : Told system start s) (changed : s.stage party = .changed change) :
    Told system start { s with log := s.log ++ [(party,change)], stage := Function.update s.stage party .entered } := by
  have held := told.pending party change changed
  have absent : party ∉ s.log.map Prod.fst := by
    intro member
    obtain ⟨entry,inside,rfl⟩ := List.mem_map.mp member
    have entered := (told.entered entry inside).2
    rw [changed] at entered
    cases entered
  refine ⟨told.replays,told.once,?_,?_,?_,?_,?_⟩
  · rw [List.map_append]
    refine List.Nodup.append told.listed (List.nodup_singleton _) ?_
    simpa using absent
  · refine forall_append ?_ ⟨held,Function.update_self ..⟩
    intro entry member
    obtain ⟨there,entered⟩ := told.entered entry member
    have apart : entry.1 ≠ party := fun same => absent (same ▸ List.mem_map_of_mem member)
    exact ⟨there,(Function.update_of_ne apart _ _).trans entered⟩
  · intro entry member
    by_cases same : entry.1 = party
    · have own : entry = (party,change) := List.inj_on_of_nodup_map told.once member held same
      exact .inr (.inr (own ▸ List.mem_append_right _ (List.mem_singleton_self _)))
    · obtain changed | ended | there := told.owed entry member
      · exact .inl ((Function.update_of_ne same _ _).trans changed)
      · exact .inr (.inl ((Function.update_of_ne same _ _).trans ended))
      · exact .inr (.inr (List.mem_append_left _ there))
  · intro other its still
    by_cases same : other = party
    · subst same
      simp at still
    · exact told.pending other its (by simpa [Function.update_of_ne same] using still)
  · intro other early
    by_cases same : other = party
    · subst same
      simp at early
    · exact told.fresh other (by simpa [Function.update_of_ne same] using early)

theorem told_step (told : Told system start s) (stepped : step system s event = some t) : Told system start t := by
  cases step_turn stepped with
  | read waits =>
    rename_i party
    refine told_moved told (by simp [waits]) ?_
    cases system.read party s.store with
    | none => exact .inl rfl
    | some seen => exact .inr ⟨told.fresh party (.inl waits),seen,rfl⟩
  | refuse reads none_ => exact told_moved told (by simp [reads]) (.inl rfl)
  | change reads made => exact told_changed told reads made
  | enter changed => exact told_entered told changed
  | stop unfinished => exact told_moved told unfinished (.inl rfl)

theorem run_told {start : σ} {events : List (Event ι δ)} (ran : run (step system) (opened start) events = some s) : Told system start s :=
  run_keeps (Told system start) (fun _ _ _ told stepped => told_step told stepped) (told_opened start) ran

omit [DecidableEq ι] in
theorem entered_listed (told : Told system start s) (member : entry ∈ s.journal) (entered : s.stage entry.1 = .entered) : entry ∈ s.log := by
  obtain changed | ended | there := told.owed entry member
  · rw [changed] at entered
    cases entered
  · rw [ended] at entered
    cases entered
  · exact there

-- Nobody owes an entry: whoever made a change has entered it.
def Paid (s : State ι σ κ ρ τ) : Prop := ∀ entry ∈ s.journal, s.stage entry.1 = .entered

omit [DecidableEq ι] in
-- Then the log has every change that was made, and nothing else.
theorem paid_perm (told : Told system start s) (paid : Paid s) : s.log.Perm s.journal := by
  refine (List.perm_ext_iff_of_nodup (.of_map Prod.fst told.listed) (.of_map Prod.fst told.once)).mpr ?_
  intro entry
  constructor
  · exact fun member => (told.entered entry member).1
  · exact fun member => entered_listed told member (paid entry member)

-- No change is made while another waits for its entry.
def Orderly (s : State ι σ κ ρ τ) (event : Event ι δ) (_ : State ι σ κ ρ τ) : Prop :=
  ∀ party given, event = .change party given → s.journal = s.log

-- What a party changes is what it names as old.
def Current (system : System ι σ κ ρ τ δ) (s : State ι σ κ ρ τ) (event : Event ι δ) (_ : State ι σ κ ρ τ) : Prop :=
  ∀ party given seen store made, event = .change party given → s.stage party = .read seen →
    system.change party seen given s.store = some (store,made) → made.old = system.look s.store made.key

theorem step_orderly (told : Told system start s) (orderly : Orderly s event t) (stepped : step system s event = some t)
    (before : s.journal = s.log ∨ ∃ last, s.journal = s.log ++ [last]) : t.journal = t.log ∨ ∃ last, t.journal = t.log ++ [last] := by
  cases step_turn stepped with
  | read waits => exact before
  | refuse reads none_ => exact before
  | stop unfinished => exact before
  | change reads made =>
    rename_i party seen given store change
    have level := orderly party given rfl
    exact .inr ⟨(party,change),by rw [level]⟩
  | enter changed =>
    rename_i party change
    have held := told.pending party change changed
    have absent : (party,change) ∉ s.log := by
      intro member
      have entered := (told.entered _ member).2
      rw [changed] at entered
      cases entered
    obtain level | ⟨last,parts⟩ := before
    · exact absurd (level ▸ held) absent
    · rw [parts,List.mem_append,List.mem_singleton] at held
      obtain own := held.resolve_left absent
      exact .inl (parts.trans (by rw [own]))

theorem step_chained (told : Told system start s) (current : Current system s event t) (stepped : step system s event = some t)
    (chained : Chained (s.journal.map Prod.snd) (system.look start)) : Chained (t.journal.map Prod.snd) (system.look start) := by
  cases step_turn stepped with
  | read waits => exact chained
  | refuse reads none_ => exact chained
  | stop unfinished => exact chained
  | enter changed => exact chained
  | change reads made =>
    rename_i party seen given store change
    have old := current party given seen store change rfl reads made
    simp only [List.map_append]
    refine chained_next chained ?_
    rw [← told.replays]
    exact old

-- When each change is entered before the next is made, and nobody owes an
-- entry, the log read from its start gives the store.
theorem orderly_replays {start : σ} {events : List (Event ι δ)} (ran : run (step system) (opened start) events = some s)
    (orderly : Along (step system) Orderly (opened start) events) (paid : Paid s) :
    s.log = s.journal ∧ system.look s.store = replay (s.log.map Prod.snd) (system.look start) := by
  have told := run_told ran
  have both := along_keeps (fun s => Told system start s ∧ (s.journal = s.log ∨ ∃ last, s.journal = s.log ++ [last]))
    (fun _ _ _ holds stepped orderly => ⟨told_step holds.1 stepped,step_orderly holds.1 orderly stepped holds.2⟩)
    ⟨told_opened start,.inl rfl⟩ orderly ran
  have level : s.log = s.journal := by
    obtain level | ⟨last,parts⟩ := both.2
    · exact level.symm
    · have sizes := (paid_perm told paid).length_eq
      rw [parts,List.length_append,List.length_singleton] at sizes
      omega
  exact ⟨level,level ▸ told.replays⟩

theorem current_chained {start : σ} {events : List (Event ι δ)} (ran : run (step system) (opened start) events = some s)
    (current : Along (step system) (Current system) (opened start) events) : Chained (s.journal.map Prod.snd) (system.look start) :=
  (along_keeps (fun s => Told system start s ∧ Chained (s.journal.map Prod.snd) (system.look start))
    (fun _ _ _ holds stepped current => ⟨told_step holds.1 stepped,step_chained holds.1 current stepped holds.2⟩)
    ⟨told_opened start,chained_nil _⟩ current ran).2

end Parties

end ChangeLogs
