import AdblockCompiler.JsText
import AdblockCompiler.Schedules

-- The event log of a workflow in KV, and the buffer in front of it. An ISO text
-- stands for the instant it names, in milliseconds.
namespace AdblockCompiler.WorkflowEvents
open JsText Schedules

def DEFAULT_EVENT_TTL : Nat := 3600
def MAX_EVENTS : Nat := 100

inductive WorkflowEventType where
  | workflowStarted | workflowStepStarted | workflowStepCompleted | workflowStepFailed | workflowProgress
  | workflowCompleted | workflowFailed | sourceFetchStarted | sourceFetchCompleted | sourceFetchFailed
  | transformationStarted | transformationCompleted | cacheStored | healthCheckStarted | healthCheckCompleted
  deriving DecidableEq, Repr

-- data is JSON text.
structure WorkflowProgressEvent where
  type : WorkflowEventType
  workflowId : Text
  workflowType : Text
  timestamp : Int
  step : Option Text
  progress : Option Int
  message : Option Text
  data : Option Text
  deriving DecidableEq

structure WorkflowEventLog where
  workflowId : Text
  workflowType : Text
  startedAt : Int
  completedAt : Option Int
  events : List WorkflowProgressEvent
  deriving DecidableEq

-- An entry of KV with the TTL it was put with, in seconds.
structure StoredLog where
  log : WorkflowEventLog
  expirationTtl : Nat

-- The fields of the class that do not change.
structure Emitter where
  workflowId : Text
  workflowType : Text
  eventTtl : Nat

def Emitter.create (workflowId workflowType : Text) (eventTtl : Option Nat) : Emitter :=
  ⟨workflowId,workflowType,eventTtl.getD DEFAULT_EVENT_TTL⟩

structure State where
  kv : Option StoredLog
  pendingEvents : List WorkflowProgressEvent

structure Emission where
  type : WorkflowEventType
  data : Option Text
  step : Option Text
  progress : Option Int
  message : Option Text

def Emitter.event (emitter : Emitter) (emission : Emission) (now : Int) : WorkflowProgressEvent :=
  ⟨emission.type,emitter.workflowId,emitter.workflowType,now,emission.step,emission.progress,emission.message,emission.data⟩

def emit (emitter : Emitter) (s : State) (emission : Emission) (now : Int) : State :=
  { s with pendingEvents := s.pendingEvents ++ [emitter.event emission now] }

def newest (events : List WorkflowProgressEvent) : List WorkflowProgressEvent :=
  if events.length > MAX_EVENTS then events.drop (events.length-MAX_EVENTS) else events

def terminal (event : WorkflowProgressEvent) : Bool := event.type = .workflowCompleted || event.type = .workflowFailed

def newLog (emitter : Emitter) (pendingEvents : List WorkflowProgressEvent) (now : Int) : WorkflowEventLog :=
  ⟨emitter.workflowId,emitter.workflowType,(pendingEvents.head?.map (·.timestamp)).getD now,none,[]⟩

def extended (eventLog : WorkflowEventLog) (pendingEvents : List WorkflowProgressEvent) : WorkflowEventLog :=
  let events := newest (eventLog.events ++ pendingEvents)
  -- the newest terminal event that is left in the log
  let completedAt := ((events.reverse.find? terminal).map (·.timestamp)).or eventLog.completedAt
  { eventLog with events := events, completedAt := completedAt }

-- Where a flush fails: its catch clause only logs.
inductive Outcome where
  | getFails | putFails | succeeds
  deriving DecidableEq

def flush (emitter : Emitter) (s : State) (now : Int) (outcome : Outcome) : State :=
  if s.pendingEvents.length = 0 then s
  else match outcome with
    | .getFails => s
    | .putFails => s
    | .succeeds =>
      let eventLog := (s.kv.map (·.log)).getD (newLog emitter s.pendingEvents now)
      ⟨some ⟨extended eventLog s.pendingEvents,emitter.eventTtl⟩,[]⟩

def getWorkflowEvents (s : State) : Option WorkflowEventLog := s.kv.map (·.log)

-- since is none for a text that names no instant: no comparison with it holds.
def getWorkflowEventsSince (s : State) (since : Option Int) : List WorkflowProgressEvent :=
  match getWorkflowEvents s with
  | none => []
  | some eventLog => eventLog.events.filter fun event => since.any (· < event.timestamp)

def persisted (s : State) : List WorkflowProgressEvent := ((getWorkflowEvents s).map (·.events)).getD []

-- The calls of one instance, and KV dropping the entry when its TTL is over.
inductive Call where
  | emit (emission : Emission) (now : Int)
  | flush (now : Int) (outcome : Outcome)
  | lapse

def perform (emitter : Emitter) (s : State) : Call → State
  | .emit emission now => emit emitter s emission now
  | .flush now outcome => flush emitter s now outcome
  | .lapse => { s with kv := none }

def after (emitter : Emitter) (calls : List Call) : State := calls.foldl (perform emitter) ⟨none,[]⟩

def emitted (emitter : Emitter) : List Call → List WorkflowProgressEvent
  | [] => []
  | .emit emission now :: rest => emitter.event emission now :: emitted emitter rest
  | .flush _ _ :: rest | .lapse :: rest => emitted emitter rest

-- The sequence of the emitted events, of which each successful flush drops all
-- but the newest.
def expected (emitter : Emitter) (calls : List Call) : List WorkflowProgressEvent :=
  calls.foldl (fun kept call => match call with
    | .emit emission now => kept ++ [emitter.event emission now]
    | .flush _ .succeeds => kept.rtake MAX_EVENTS
    | .flush _ _ | .lapse => kept) []

-- The same with each event marked once a flush has saved it: a lapse drops those
-- that were saved.
def retain (emitter : Emitter) (kept : List (WorkflowProgressEvent × Bool)) : Call → List (WorkflowProgressEvent × Bool)
  | .emit emission now => kept ++ [(emitter.event emission now,false)]
  | .flush _ .succeeds => (kept.map fun entry => (entry.1,true)).rtake MAX_EVENTS
  | .flush _ _ => kept
  | .lapse => kept.filter fun entry => !entry.2

def retained (emitter : Emitter) (calls : List Call) : List (WorkflowProgressEvent × Bool) := calls.foldl (retain emitter) []

def marked (saved : Bool) (events : List WorkflowProgressEvent) : List (WorkflowProgressEvent × Bool) := events.map fun event => (event,saved)

theorem newest_rtake (events : List WorkflowProgressEvent) : newest events = events.rtake MAX_EVENTS := by
  unfold newest List.rtake
  split
  · rfl
  · rename_i few
    rw [Nat.sub_eq_zero_of_le (Nat.le_of_not_lt few),List.drop_zero]

theorem rtake_map (f : α → β) (items : List α) (n : Nat) : (items.map f).rtake n = (items.rtake n).map f := by
  rw [List.rtake,List.rtake,List.length_map,List.map_drop]

-- Saved events come first, then the buffered ones, and the log is never too long.
structure Matches (kept : List (WorkflowProgressEvent × Bool)) (s : State) : Prop where
  order : kept = marked true (persisted s) ++ marked false s.pendingEvents
  bounded : (persisted s).length ≤ MAX_EVENTS

theorem flush_persisted (emitter : Emitter) (s : State) (now : Int) (some : s.pendingEvents ≠ []) :
    persisted (flush emitter s now .succeeds) = newest (persisted s ++ s.pendingEvents) ∧ (flush emitter s now .succeeds).pendingEvents = [] := by
  have nonempty : s.pendingEvents.length ≠ 0 := List.length_eq_zero_iff.not.mpr some
  rw [flush,if_neg nonempty]
  refine ⟨?_,rfl⟩
  unfold persisted getWorkflowEvents
  cases s.kv <;> rfl

theorem flush_failed (emitter : Emitter) (s : State) (now : Int) (failed : outcome ≠ .succeeds) : flush emitter s now outcome = s := by
  unfold flush
  split
  · rfl
  · cases outcome with
    | getFails => rfl
    | putFails => rfl
    | succeeds => exact absurd rfl failed

theorem retain_failed (emitter : Emitter) (kept : List (WorkflowProgressEvent × Bool)) (now : Int) (failed : outcome ≠ .succeeds) :
    retain emitter kept (.flush now outcome) = kept := by
  cases outcome with
  | getFails => rfl
  | putFails => rfl
  | succeeds => exact absurd rfl failed

theorem matches_step (emitter : Emitter) (met : Matches kept s) (call : Call) : Matches (retain emitter kept call) (perform emitter s call) := by
  obtain ⟨order,bounded⟩ := met
  cases call with
  | emit emission now =>
    refine ⟨?_,bounded⟩
    rw [retain,order,List.append_assoc]
    simp [perform,emit,marked,persisted,getWorkflowEvents]
  | flush now outcome =>
    by_cases failed : outcome = .succeeds
    · subst failed
      have saved : (kept.map fun entry => (entry.1,true)) = marked true (persisted s ++ s.pendingEvents) := by
        rw [order]
        simp [marked,Function.comp_def]
      rw [retain,saved,marked,rtake_map,← newest_rtake]
      by_cases none : s.pendingEvents = []
      · have idle : perform emitter s (.flush now .succeeds) = s := if_pos (by rw [none]; rfl)
        have short : newest (persisted s) = persisted s := if_neg (Nat.not_lt.mpr bounded)
        rw [idle,none,List.append_nil,short]
        refine ⟨?_,bounded⟩
        rw [none]
        exact (List.append_nil _).symm
      · obtain ⟨log,buffer⟩ := flush_persisted emitter s now none
        rw [perform]
        refine ⟨?_,?_⟩
        · rw [log,buffer]
          exact (List.append_nil _).symm
        · rw [log,newest_rtake,List.rtake,List.length_drop]
          omega
    · rw [retain_failed emitter kept now failed,perform,flush_failed emitter s now failed]
      exact ⟨order,bounded⟩
  | lapse =>
    refine ⟨?_,Nat.zero_le _⟩
    rw [retain,order]
    simp [perform,marked,persisted,getWorkflowEvents,List.filter_map,Function.comp_def]

theorem matches_after (emitter : Emitter) (calls : List Call) : Matches (retained emitter calls) (after emitter calls) := by
  induction calls using List.reverseRecOn with
  | nil => exact ⟨rfl,Nat.zero_le _⟩
  | append_singleton calls call ih =>
    rw [retained,after,List.foldl_append,List.foldl_append]
    exact matches_step emitter ih call

theorem emitted_append (emitter : Emitter) (calls rest : List Call) : emitted emitter (calls ++ rest) = emitted emitter calls ++ emitted emitter rest := by
  induction calls with
  | nil => rfl
  | cons call calls ih => cases call <;> simp [emitted,ih]

-- What is retained are events that were emitted, in order and each once.
theorem retained_emitted (emitter : Emitter) (calls : List Call) : ((retained emitter calls).map Prod.fst).Sublist (emitted emitter calls) := by
  induction calls using List.reverseRecOn with
  | nil => exact List.Sublist.refl _
  | append_singleton calls call ih =>
    rw [retained,List.foldl_append,emitted_append,← retained]
    cases call with
    | emit emission now =>
      rw [List.foldl_cons,List.foldl_nil,retain,List.map_append]
      exact ih.append (List.Sublist.refl _)
    | flush now outcome =>
      rw [List.foldl_cons,List.foldl_nil,emitted,emitted,List.append_nil]
      by_cases failed : outcome = .succeeds
      · subst failed
        rw [retain,← rtake_map,List.map_map]
        exact (List.drop_sublist _ _).trans ih
      · rw [retain_failed emitter _ now failed]
        exact ih
    | lapse =>
      rw [List.foldl_cons,List.foldl_nil,emitted,emitted,List.append_nil,retain]
      exact (List.filter_sublist.map Prod.fst).trans ih

theorem retained_expected (emitter : Emitter) (calls : List Call) (steady : ∀ call ∈ calls, call ≠ .lapse) :
    (retained emitter calls).map Prod.fst = expected emitter calls := by
  induction calls using List.reverseRecOn with
  | nil => rfl
  | append_singleton calls call ih =>
    obtain ⟨earlier,last⟩ := List.forall_mem_append.mp steady
    have before := ih earlier
    rw [retained,expected,List.foldl_append,List.foldl_append,← retained,← expected,← before]
    cases call with
    | emit emission now => exact List.map_append
    | flush now outcome =>
      cases outcome with
      | getFails => rfl
      | putFails => rfl
      | succeeds =>
        rw [List.foldl_cons,List.foldl_nil,retain,← rtake_map,List.map_map]
        rfl
    | lapse => exact absurd rfl (last .lapse (List.mem_singleton_self _))

theorem log_lossless (emitter : Emitter) (calls : List Call) :
    ((∀ call ∈ calls, call ≠ .lapse) → persisted (after emitter calls) ++ (after emitter calls).pendingEvents = expected emitter calls) ∧
      persisted (after emitter calls) ++ (after emitter calls).pendingEvents = (retained emitter calls).map Prod.fst ∧
      ((retained emitter calls).map Prod.fst).Sublist (emitted emitter calls) ∧ (persisted (after emitter calls)).length ≤ MAX_EVENTS ∧
      ∀ now outcome, outcome ≠ .succeeds → after emitter (calls ++ [.flush now outcome]) = after emitter calls := by
  obtain ⟨order,bounded⟩ := matches_after emitter calls
  have whole : persisted (after emitter calls) ++ (after emitter calls).pendingEvents = (retained emitter calls).map Prod.fst := by
    rw [order]
    simp [marked,Function.comp_def]
  refine ⟨?_,whole,retained_emitted emitter calls,bounded,?_⟩
  · intro steady
    exact whole.trans (retained_expected emitter calls steady)
  · intro now outcome failed
    rw [after,List.foldl_append,← after]
    exact flush_failed emitter _ now failed

-- A client that asks again and again for what came after the last event it has.
structure Polling where
  log : State
  now : Int
  received : List WorkflowProgressEvent
  since : Int

inductive Action where
  | emit (emission : Emission)
  | flush
  | poll
  | advance (ms : Nat)

def act (emitter : Emitter) (s : Polling) : Action → Option Polling
  | .emit emission => some { s with log := emit emitter s.log emission s.now }
  | .flush => some { s with log := flush emitter s.log s.now .succeeds }
  | .poll =>
    let fresh := getWorkflowEventsSince s.log (some s.since)
    some { s with received := s.received ++ fresh, since := (fresh.getLast?.map (·.timestamp)).getD s.since }
  | .advance ms => some { s with now := s.now+ms }

-- The client starts from an instant before the first event.
def watching (since : Int) (wait : Nat) : Polling := ⟨⟨none,[]⟩,since+1+wait,[],since⟩

-- A workflow of at most MAX_EVENTS events.
def room (s : Polling) : Action → Bool
  | .emit _ => (persisted s.log).length+s.log.pendingEvents.length < MAX_EVENTS
  | _ => true

-- What was received, and then what the next poll brings, is what is persisted.
def Delivered (s : Polling) : Prop := s.received ++ getWorkflowEventsSince s.log (some s.since) = persisted s.log

-- No flush saves an event of the instant of the last one that was received.
def untied (s : Polling) : Action → Bool
  | .flush => s.log.pendingEvents.all fun event => event.timestamp ≠ s.since
  | _ => true

structure Sound (s : Polling) : Prop where
  delivered : Delivered s
  ordered : (persisted s.log ++ s.log.pendingEvents).Pairwise fun one two => one.timestamp ≤ two.timestamp
  past : ∀ event ∈ persisted s.log ++ s.log.pendingEvents, event.timestamp ≤ s.now
  behind : ∀ event ∈ s.log.pendingEvents, s.since ≤ event.timestamp
  begun : s.since ≤ s.now
  few : (persisted s.log).length+s.log.pendingEvents.length ≤ MAX_EVENTS

theorem since_persisted (s : State) (since : Int) :
    getWorkflowEventsSince s (some since) = (persisted s).filter fun event => since < event.timestamp := by
  unfold getWorkflowEventsSince persisted
  cases getWorkflowEvents s <;> rfl

theorem emit_persisted (emitter : Emitter) (s : State) (emission : Emission) (now : Int) : persisted (emit emitter s emission now) = persisted s := rfl

-- Below the bound a flush drops nothing.
theorem flush_all (emitter : Emitter) (sound : Sound s) :
    persisted (flush emitter s.log s.now .succeeds) = persisted s.log ++ s.log.pendingEvents ∧
      (flush emitter s.log s.now .succeeds).pendingEvents = [] := by
  by_cases none : s.log.pendingEvents = []
  · have idle : flush emitter s.log s.now .succeeds = s.log := if_pos (by rw [none]; rfl)
    rw [idle,none,List.append_nil]
    exact ⟨rfl,rfl⟩
  · obtain ⟨log,buffer⟩ := flush_persisted emitter s.log s.now none
    refine ⟨?_,buffer⟩
    rw [log,newest,List.length_append,if_neg (Nat.not_lt.mpr sound.few)]

theorem flush_exact (emitter : Emitter) (sound : Sound s) :
    Delivered { s with log := flush emitter s.log s.now .succeeds } ↔ untied s .flush = true := by
  obtain ⟨log,-⟩ := flush_all emitter sound
  have before := sound.delivered
  unfold Delivered at *
  rw [since_persisted] at before ⊢
  rw [log,List.filter_append,← List.append_assoc,before,List.append_cancel_left_eq,List.filter_eq_self,untied,List.all_eq_true]
  refine forall₂_congr fun event member => ?_
  have later := sound.behind event member
  rw [decide_eq_true_iff,decide_eq_true_iff]
  dsimp only
  omega

theorem last_latest {events : List WorkflowProgressEvent} (ordered : events.Pairwise fun one two => one.timestamp ≤ two.timestamp)
    (last : events.getLast? = some latest) : ∀ event ∈ events, event.timestamp ≤ latest.timestamp := by
  obtain ⟨earlier,rfl⟩ := List.getLast?_eq_some_iff.mp last
  intro event member
  rcases List.mem_append.mp member with before | here
  · exact (List.pairwise_append.mp ordered).2.2 event before latest (List.mem_singleton_self latest)
  · rw [List.mem_singleton.mp here]

def nextSince (s : Polling) : Int := ((getWorkflowEventsSince s.log (some s.since)).getLast?.map (·.timestamp)).getD s.since

-- Where the client asks from next: where it did, or at an event it has received.
theorem nextSince_cases (s : Polling) (sound : Sound s) :
    (nextSince s = s.since ∧ getWorkflowEventsSince s.log (some s.since) = []) ∨
      ∃ latest, (persisted s.log).getLast? = some latest ∧ nextSince s = latest.timestamp := by
  have delivered := sound.delivered
  unfold nextSince Delivered at *
  cases last : (getWorkflowEventsSince s.log (some s.since)).getLast? with
  | none => exact .inl ⟨rfl,List.getLast?_eq_none_iff.mp last⟩
  | some latest =>
    refine .inr ⟨latest,?_,rfl⟩
    rw [← delivered,List.getLast?_append,last]
    rfl

-- A poll brings everything up to the last event it returns.
theorem poll_since (sound : Sound s) : getWorkflowEventsSince s.log (some (nextSince s)) = [] := by
  rw [since_persisted,List.filter_eq_nil_iff]
  intro event member
  rcases nextSince_cases s sound with ⟨same,nothing⟩ | ⟨latest,last,same⟩
  · rw [since_persisted,List.filter_eq_nil_iff] at nothing
    rw [same]
    exact nothing event member
  · have bound := last_latest (List.pairwise_append.mp sound.ordered).1 last event member
    rw [same,decide_eq_true_iff]
    exact Int.not_lt.mpr bound

theorem poll_delivered (sound : Sound s) :
    Delivered { s with received := s.received ++ getWorkflowEventsSince s.log (some s.since), since := nextSince s } := by
  unfold Delivered
  dsimp only
  rw [poll_since sound,List.append_nil]
  exact sound.delivered

theorem sound_step (emitter : Emitter) (sound : Sound s) (stepped : guarded room (act emitter) s action = some t) (delivered : Delivered t) :
    Sound t := by
  obtain ⟨admitted,taken⟩ := guarded_step.mp stepped
  cases action with
  | emit emission =>
    cases taken
    refine ⟨delivered,?_,?_,?_,sound.begun,?_⟩
    · rw [emit_persisted,emit,← List.append_assoc,List.pairwise_append]
      refine ⟨sound.ordered,List.pairwise_singleton _ _,?_⟩
      intro event member new last
      rw [List.mem_singleton.mp last]
      exact sound.past event member
    · rw [emit_persisted,emit,← List.append_assoc]
      exact forall_append sound.past (Int.le_refl s.now)
    · exact forall_append sound.behind sound.begun
    · have free : (persisted s.log).length+s.log.pendingEvents.length < MAX_EVENTS := of_decide_eq_true admitted
      rw [emit_persisted,emit,List.length_append,List.length_singleton]
      exact free
  | flush =>
    cases taken
    obtain ⟨log,buffer⟩ := flush_all emitter sound
    refine ⟨delivered,?_,?_,?_,sound.begun,?_⟩
    · rw [log,buffer,List.append_nil]
      exact sound.ordered
    · rw [log,buffer,List.append_nil]
      exact sound.past
    · rw [buffer]
      exact nofun
    · rw [log,buffer,List.length_append]
      exact sound.few
  | poll =>
    cases taken
    refine ⟨delivered,sound.ordered,sound.past,?_,?_,sound.few⟩
    · intro event member
      rcases nextSince_cases s sound with ⟨same,-⟩ | ⟨latest,last,same⟩
      · exact same.trans_le (sound.behind event member)
      · have across := (List.pairwise_append.mp sound.ordered).2.2 latest (List.mem_of_getLast? last) event member
        exact same.trans_le across
    · rcases nextSince_cases s sound with ⟨same,-⟩ | ⟨latest,last,same⟩
      · exact same.trans_le sound.begun
      · exact same.trans_le (sound.past latest (List.mem_append_left _ (List.mem_of_getLast? last)))
  | advance ms =>
    cases taken
    have later : s.now ≤ s.now+ms := Int.le_add_of_nonneg_right (Int.natCast_nonneg ms)
    exact ⟨delivered,sound.ordered,fun event member => (sound.past event member).trans later,sound.behind,sound.begun.trans later,sound.few⟩

theorem delivered_exact (emitter : Emitter) (sound : Sound s) (stepped : guarded room (act emitter) s action = some t) :
    Delivered t ↔ untied s action = true := by
  obtain ⟨-,taken⟩ := guarded_step.mp stepped
  cases action with
  | emit emission =>
    cases taken
    exact iff_of_true sound.delivered rfl
  | flush =>
    cases taken
    exact flush_exact emitter sound
  | poll =>
    cases taken
    exact iff_of_true (poll_delivered sound) rfl
  | advance ms =>
    cases taken
    exact iff_of_true sound.delivered rfl

theorem polling_exact (emitter : Emitter) (since : Int) (wait : Nat) (actions : List Action) :
    Along (guarded room (act emitter)) (fun _ _ t => Delivered t) (watching since wait) actions ↔
      Along (guarded room (act emitter)) (fun s action _ => untied s action = true) (watching since wait) actions := by
  have begins : Sound (watching since wait) := by
    refine ⟨rfl,List.Pairwise.nil,?_,?_,?_,Nat.zero_le _⟩
    · exact fun _ member => absurd member List.not_mem_nil
    · exact fun _ member => absurd member List.not_mem_nil
    · change since ≤ since+1+wait
      omega
  exact along_exact Sound (fun _ _ _ sound stepped delivered => sound_step emitter sound stepped delivered)
    (fun _ _ _ sound stepped => delivered_exact emitter sound stepped) begins

-- Two events of one millisecond, with a flush and a poll after each.
def aFlushEach : List Action :=
  [.emit ⟨.workflowStarted,none,none,none,none⟩,.flush,.poll,.emit ⟨.workflowProgress,none,none,none,none⟩,.flush,.poll]

theorem aFlushEach_missed :
    (run (guarded room (act ⟨"w".toList,"batch".toList,60⟩)) (watching 0 0) aFlushEach).map (fun t => (t.received.length,(persisted t.log).length)) = some (1,2) ∧
      ¬Along (guarded room (act ⟨"w".toList,"batch".toList,60⟩)) (fun _ _ t => Delivered t) (watching 0 0) aFlushEach := by
  have lengths : (run (guarded room (act ⟨"w".toList,"batch".toList,60⟩)) (watching 0 0) aFlushEach).map
      (fun t => (t.received.length,(persisted t.log).length)) = some (1,2) := by decide
  refine ⟨lengths,?_⟩
  intro along
  obtain ⟨_,one,-,_,two,-,_,three,-,_,four,-,_,five,tied,-⟩ := along
  cases one; cases two; cases three; cases four; cases five
  exact absurd tied (by unfold Delivered; decide)

end AdblockCompiler.WorkflowEvents
