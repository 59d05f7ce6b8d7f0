import AdblockCompiler.JsText
import AdblockCompiler.Schedules

-- One WebSocket connection: what its client sends, the compilations under way,
-- and the timers that clean up after them.
namespace AdblockCompiler.WebSocket
open JsText Schedules

def MAX_CONCURRENT_COMPILATIONS : Nat := 3

inductive Status where
  | running | paused | completed | failed | cancelled
  deriving DecidableEq, Repr

-- aborted is the signal of the abort controller, which the compiler is not given.
structure CompilationSession where
  sessionId : Text
  configurationName : Text
  startedAt : Int
  status : Status
  aborted : Bool

inductive ClientMessage where
  | compile (sessionId configurationName : Text)
  | cancel (sessionId : Text)
  | pause (sessionId : Text)
  | resume (sessionId : Text)
  | ping

inductive ServerMessage where
  | pong
  | started (sessionId configurationName : Text)
  | event (sessionId eventType data : Text)
  | complete (sessionId : Text) (rules : List Text) (ruleCount : Nat)
  | failed (sessionId error : Text)
  | cancelled (sessionId reason : Text)
  | error (error code : Text) (sessionId : Option Text)

-- compile:complete, compile:error and compile:cancelled.
def ServerMessage.terminal : ServerMessage → Bool
  | .complete _ _ _ | .failed _ _ | .cancelled _ _ => true
  | .pong | .started _ _ | .event _ _ _ | .error _ _ _ => false

-- start is history: which compile:started the message is sent for.
structure Sent where
  start : Option Nat
  message : ServerMessage
  timestamp : Int

-- A session object with the coroutine that holds it.
structure Compile where
  session : CompilationSession
  awaiting : Bool

structure Timer where
  due : Int
  sessionId : Text

-- sessions is the Map of the connection; its values are places in compiles.
structure State where
  isOpen : Bool
  now : Int
  lastHeartbeat : Int
  sessions : List (Text × Nat)
  compiles : List Compile
  timers : List Timer
  sent : List Sent

def connected (now : Int) : State := ⟨true,now,now,[],[],[],[]⟩

-- A socket that is closed throws, and sendMessage only logs that.
def sendMessages (s : State) (start : Option Nat) (messages : List ServerMessage) : State :=
  if s.isOpen then { s with sent := s.sent ++ messages.map fun message => ⟨start,message,s.now⟩ } else s

def sendMessage (s : State) (start : Option Nat) (message : ServerMessage) : State := sendMessages s start [message]

def sendError (s : State) (error code : Text) (sessionId : Option Text) : State :=
  sendMessage s none (.error error code sessionId)

def setTimer (s : State) (ms : Nat) (sessionId : Text) : State :=
  { s with timers := s.timers ++ [⟨s.now+ms,sessionId⟩] }

def setSession (s : State) (i : Nat) (compile : Compile) : State := { s with compiles := s.compiles.set i compile }

def Compile.become (compile : Compile) (status : Status) : Compile :=
  { compile with session := { compile.session with status := status } }

def isRunning (s : State) (i : Nat) : Bool := s.compiles[i]?.any fun compile => compile.session.status = .running

def runningCount (s : State) : Nat := s.sessions.countP fun entry => isRunning s entry.2

-- handleCompileRequest up to its await.
def handleCompileRequest (s : State) (sessionId configurationName : Text) : State :=
  if (s.sessions.lookup sessionId).isSome then
    sendError s "Session ID already in use".toList "DUPLICATE_SESSION".toList (some sessionId)
  else if runningCount s ≥ MAX_CONCURRENT_COMPILATIONS then
    sendError s "Maximum concurrent compilations reached".toList "TOO_MANY_COMPILATIONS".toList (some sessionId)
  else
    let session : CompilationSession := ⟨sessionId,configurationName,s.now,.running,false⟩
    let i := s.compiles.length
    sendMessage { s with sessions := s.sessions ++ [(sessionId,i)], compiles := s.compiles ++ [⟨session,true⟩] }
      (some i) (.started sessionId configurationName)

-- The rest of it, when the compiler has returned.
def compiled (s : State) (i : Nat) (compile : Compile) (rules diagnostics : List Text) : State :=
  let settled := { compile with awaiting := false }
  let sessionId := compile.session.sessionId
  if compile.session.status = .cancelled then setSession s i settled
  else setTimer
    (sendMessages (setSession s i (settled.become .completed)) (some i)
      (diagnostics.map (.event sessionId "diagnostic".toList) ++ [.complete sessionId rules rules.length]))
    60000 sessionId

-- The rest of it, when the compiler has thrown.
def caught (s : State) (i : Nat) (compile : Compile) (error : Text) : State :=
  let settled := { compile with awaiting := false }
  let sessionId := compile.session.sessionId
  setTimer (sendMessage (setSession s i (settled.become .failed)) (some i) (.failed sessionId error)) 60000 sessionId

def findSession (s : State) (sessionId : Text) : Option (Nat × Compile) := do
  let i ← s.sessions.lookup sessionId
  let compile ← s.compiles[i]?
  pure (i,compile)

def handleCancelRequest (s : State) (sessionId : Text) : State :=
  match findSession s sessionId with
  | none => sendError s "Session not found".toList "SESSION_NOT_FOUND".toList (some sessionId)
  | some (i,compile) =>
    if compile.session.status ≠ .running then
      sendError s "Session is not running".toList "INVALID_SESSION_STATE".toList (some sessionId)
    else
      let aborted := { compile with session := { compile.session with aborted := true, status := .cancelled } }
      setTimer (sendMessage (setSession s i aborted) (some i) (.cancelled sessionId "Cancelled by client".toList)) 5000 sessionId

def handleClientMessage (s : State) : ClientMessage → State
  | .compile sessionId configurationName => handleCompileRequest s sessionId configurationName
  | .cancel sessionId => handleCancelRequest s sessionId
  | .ping => sendMessage { s with lastHeartbeat := s.now } none .pong
  | .pause sessionId | .resume sessionId =>
    sendError s "Pause/resume not yet implemented".toList "NOT_IMPLEMENTED".toList (some sessionId)

def abortAll (s : State) : List Compile :=
  s.compiles.mapIdx fun i compile =>
    if isRunning s i && s.sessions.any (·.2 = i) then { compile with session := { compile.session with aborted := true } }
    else compile

inductive Event where
  | message (message : ClientMessage)
  | progress (i : Nat) (eventType data : Text)
  | succeeds (i : Nat) (rules diagnostics : List Text)
  | fails (i : Nat) (error : Text)
  | timer (k : Nat)
  | advance (ms : Nat)
  | close

def underway (s : State) (i : Nat) : Option Compile := s.compiles[i]?.filter (·.awaiting)

def step (s : State) : Event → Option State
  | .message message => if s.isOpen then some (handleClientMessage s message) else none
  | .progress i eventType data => do
    let compile ← underway s i
    pure (sendMessage s (some i) (.event compile.session.sessionId eventType data))
  | .succeeds i rules diagnostics => do
    let compile ← underway s i
    pure (compiled s i compile rules diagnostics)
  | .fails i error => do
    let compile ← underway s i
    pure (caught s i compile error)
  | .timer k => do
    let timer ← s.timers[k]?
    if timer.due ≤ s.now then
      pure { s with sessions := s.sessions.filter (·.1 ≠ timer.sessionId), timers := s.timers.eraseIdx k }
    else none
  | .advance ms => some { s with now := s.now+ms }
  | .close => if s.isOpen then some { s with isOpen := false, sessions := [], compiles := abortAll s } else none

-- Terminal messages sent for one start.
def terminals (s : State) (i : Nat) : Nat := s.sent.countP fun sent => sent.start = some i && sent.message.terminal

-- A failure is not reported of a compilation that was cancelled.
def heeds (s : State) : Event → Bool
  | .fails i _ => !(s.isOpen && s.compiles[i]?.any fun compile => compile.session.status = .cancelled)
  | _ => true

@[simp] theorem sendMessages_compiles (s : State) (start : Option Nat) (messages : List ServerMessage) :
    (sendMessages s start messages).compiles = s.compiles := by
  unfold sendMessages
  split <;> rfl

theorem terminals_send (s : State) (start : Option Nat) (messages : List ServerMessage) (j : Nat) :
    terminals (sendMessages s start messages) j =
      terminals s j + if s.isOpen = true ∧ start = some j then messages.countP ServerMessage.terminal else 0 := by
  cases live : s.isOpen with
  | false => simp [sendMessages,terminals,live]
  | true =>
    by_cases mine : start = some j
    · simp [sendMessages,terminals,live,mine,List.countP_append,List.countP_map,Function.comp_def]
    · simp [sendMessages,terminals,live,mine,List.countP_append,List.countP_map,Function.comp_def]

theorem terminals_quiet (s : State) (start : Option Nat) (plain : message.terminal = false) (j : Nat) :
    terminals (sendMessage s start message) j = terminals s j := by
  rw [sendMessage,terminals_send]
  split
  · simp [plain]
  · rfl

-- A start as this module's results see it: the status of its session, and
-- whether its compiler still runs.
def Compile.phase (compile : Compile) : Status × Bool := (compile.session.status,compile.awaiting)

def phases (s : State) : List (Status × Bool) := s.compiles.map Compile.phase

theorem phases_send (s : State) (start : Option Nat) (messages : List ServerMessage) :
    phases (sendMessages s start messages) = phases s := by
  rw [phases,sendMessages_compiles,phases]

theorem phases_set (s : State) (i : Nat) (compile : Compile) : phases (setSession s i compile) = (phases s).set i compile.phase :=
  List.map_set

theorem phase_found {s : State} {i : Nat} {compile : Compile} (found : s.compiles[i]? = some compile) : (phases s)[i]? = some compile.phase := by
  rw [phases,List.getElem?_map,found]
  rfl

theorem phases_abort (s : State) : (abortAll s).map Compile.phase = phases s := by
  refine List.ext_getElem? ?_
  intro i
  simp only [abortAll,phases,List.getElem?_map,List.getElem?_mapIdx]
  cases s.compiles[i]? with
  | none => rfl
  | some compile =>
    simp only [Option.map_some]
    split <;> rfl

-- What becomes of a start, how many terminal messages are sent for it then, and
-- whether the step heeds cancellation.
inductive Moves (isOpen : Bool) : Status × Bool → Status × Bool → Nat → Bool → Prop where
  | cancels : Moves isOpen (.running,awaiting) (.cancelled,awaiting) 1 true
  | leaves : Moves isOpen (.cancelled,true) (.cancelled,false) 0 true
  | completes (going : status ≠ .cancelled) : Moves isOpen (status,true) (.completed,false) isOpen.toNat true
  | fails : Moves isOpen (status,true) (.failed,false) isOpen.toNat !(isOpen && status = .cancelled)

inductive Change (s : State) (heeded : Bool) (t : State) : Prop where
  | quiet (heeds : heeded = true) (same : phases t = phases s) (unsaid : ∀ j, terminals t j = terminals s j)
  | started (heeds : heeded = true) (grown : phases t = phases s ++ [(.running,true)]) (unsaid : ∀ j, terminals t j = terminals s j)
  | moved (i : Nat) (found : (phases s)[i]? = some phase) (moves : Moves s.isOpen phase after said heeded)
      (placed : phases t = (phases s).set i after) (sent : ∀ j, terminals t j = terminals s j + if j = i then said else 0)

theorem error_change (s : State) (error code : Text) (sessionId : Option Text) : Change s true (sendError s error code sessionId) :=
  .quiet rfl (phases_send s none _) (terminals_quiet s none rfl)

theorem compile_change (s : State) (sessionId configurationName : Text) :
    Change s true (handleCompileRequest s sessionId configurationName) := by
  unfold handleCompileRequest
  split
  · apply error_change
  · split
    · apply error_change
    · refine .started rfl ?_ ?_
      · rw [sendMessage,phases_send]
        exact List.map_append
      · intro j
        rw [terminals_quiet _ _ rfl]
        rfl

-- A message for start i counts for that start only.
theorem terminals_one (s : State) (i j : Nat) (messages : List ServerMessage) (one : messages.countP ServerMessage.terminal = 1) :
    terminals (sendMessages s (some i) messages) j = terminals s j + if j = i then s.isOpen.toNat else 0 := by
  rw [terminals_send,one]
  congr 1
  by_cases same : i = j
  · subst same
    cases s.isOpen <;> simp
  · have other : j ≠ i := fun equal => same equal.symm
    simp [same,other]

-- A session changes, one terminal message is sent for its start, and a timer set.
theorem told_change (found : (phases s)[i]? = some phase) (after : Compile) (moves : Moves s.isOpen phase after.phase s.isOpen.toNat heeded)
    (messages : List ServerMessage) (one : messages.countP ServerMessage.terminal = 1) (ms : Nat) (sessionId : Text) :
    Change s heeded (setTimer (sendMessages (setSession s i after) (some i) messages) ms sessionId) := by
  refine .moved i found moves ?_ ?_
  · change phases (sendMessages _ _ _) = _
    rw [phases_send,phases_set]
  · intro j
    change terminals (sendMessages _ _ _) j = _
    rw [terminals_one _ _ _ _ one]
    rfl

theorem cancel_change (s : State) (sessionId : Text) (live : s.isOpen = true) : Change s true (handleCancelRequest s sessionId) := by
  unfold handleCancelRequest
  cases located : findSession s sessionId with
  | none => apply error_change
  | some entry =>
    obtain ⟨i,compile⟩ := entry
    by_cases running : compile.session.status = .running
    · obtain ⟨place,-,rest⟩ := Option.bind_eq_some_iff.mp located
      obtain ⟨object,held,equal⟩ := Option.bind_eq_some_iff.mp rest
      obtain ⟨rfl,rfl⟩ := Prod.mk.inj (Option.some.inj equal)
      have phase : object.phase = (.running,object.awaiting) := congrArg (·,object.awaiting) running
      have found := phase_found held
      rw [phase] at found
      simp only [running,ne_eq,not_true_eq_false,if_false]
      apply told_change found
      · rw [live]
        exact .cancels
      · rfl
    · simp only [ne_eq,running,not_false_eq_true,if_true]
      apply error_change

theorem underway_phase {compile : Compile} (found : underway s i = some compile) :
    s.compiles[i]? = some compile ∧ (phases s)[i]? = some (compile.session.status,true) := by
  obtain ⟨placed,awaiting⟩ := Option.filter_eq_some_iff.mp found
  have phase : compile.phase = (compile.session.status,true) := congrArg (compile.session.status,·) awaiting
  exact ⟨placed,(phase_found placed).trans (congrArg some phase)⟩

theorem compiled_change {compile : Compile} (found : underway s i = some compile) (rules diagnostics : List Text) :
    Change s true (compiled s i compile rules diagnostics) := by
  obtain ⟨-,located⟩ := underway_phase found
  unfold compiled
  by_cases cancelled : compile.session.status = .cancelled
  · rw [if_pos cancelled]
    rw [cancelled] at located
    refine .moved i located .leaves ?_ ?_
    · rw [phases_set,Compile.phase,cancelled]
    · intro j
      split <;> rfl
  · rw [if_neg cancelled]
    apply told_change located
    · exact .completes cancelled
    · have silent : (diagnostics.map (ServerMessage.event compile.session.sessionId "diagnostic".toList)).countP ServerMessage.terminal = 0 := by
        refine List.countP_eq_zero.mpr ?_
        intro message member
        obtain ⟨data,-,rfl⟩ := List.mem_map.mp member
        exact Bool.false_ne_true
      rw [List.countP_append,silent]
      rfl

theorem caught_change {compile : Compile} (found : underway s i = some compile) (error : Text) :
    Change s (heeds s (.fails i error)) (caught s i compile error) := by
  obtain ⟨placed,located⟩ := underway_phase found
  have heeded : heeds s (.fails i error) = !(s.isOpen && compile.session.status = .cancelled) := by
    simp only [heeds,placed,Option.any_some]
  rw [heeded]
  apply told_change located
  · exact .fails
  · rfl

theorem step_change (stepped : step s event = some t) : Change s (heeds s event) t := by
  cases event with
  | message message =>
    obtain ⟨live,reached⟩ := Option.ite_none_right_eq_some.mp stepped
    obtain rfl := Option.some.inj reached
    cases message with
    | compile sessionId configurationName => exact compile_change s sessionId configurationName
    | cancel sessionId => exact cancel_change s sessionId live
    | pause sessionId => apply error_change
    | resume sessionId => apply error_change
    | ping => exact .quiet rfl (phases_send _ none _) (terminals_quiet _ none rfl)
  | progress i eventType data =>
    obtain ⟨compile,-,reached⟩ := Option.bind_eq_some_iff.mp stepped
    obtain rfl := Option.some.inj reached
    exact .quiet rfl (phases_send s _ _) (terminals_quiet s _ rfl)
  | succeeds i rules diagnostics =>
    obtain ⟨compile,found,reached⟩ := Option.bind_eq_some_iff.mp stepped
    obtain rfl := Option.some.inj reached
    exact compiled_change found rules diagnostics
  | fails i error =>
    obtain ⟨compile,found,reached⟩ := Option.bind_eq_some_iff.mp stepped
    obtain rfl := Option.some.inj reached
    exact caught_change found error
  | timer k =>
    obtain ⟨timer,-,reached⟩ := Option.bind_eq_some_iff.mp stepped
    obtain ⟨-,equal⟩ := Option.ite_none_right_eq_some.mp reached
    obtain rfl := Option.some.inj equal
    exact .quiet rfl rfl fun _ => rfl
  | advance ms =>
    cases stepped
    exact .quiet rfl rfl fun _ => rfl
  | close =>
    obtain ⟨-,reached⟩ := Option.ite_none_right_eq_some.mp stepped
    obtain rfl := Option.some.inj reached
    exact .quiet rfl (phases_abort s) fun _ => rfl

def Once (s : State) : Prop := ∀ i, terminals s i ≤ 1

-- The terminal messages that a start in some phase has had. A compiler that
-- still runs has a session that runs or was cancelled.
structure Fits (phase : Status × Bool) (said : Nat) : Prop where
  silent : phase.1 = .running → said = 0
  pending : phase.2 = true → phase.1 = .running ∨ phase.1 = .cancelled ∧ said = 1

structure Tracked (s : State) : Prop where
  fits : ∀ i phase, (phases s)[i]? = some phase → Fits phase (terminals s i)
  unborn : ∀ i, (phases s).length ≤ i → terminals s i = 0
  once : Once s

theorem moves_fits (moves : Moves isOpen phase after said heeded) (fits : Fits phase before) (fine : before + said ≤ 1) :
    Fits after (before+said) := by
  cases moves with
  | cancels =>
    have none := fits.silent rfl
    exact ⟨nofun,fun _ => .inr ⟨rfl,by omega⟩⟩
  | leaves => exact ⟨nofun,nofun⟩
  | completes going => exact ⟨nofun,nofun⟩
  | fails => exact ⟨nofun,nofun⟩

theorem moves_exact (moves : Moves isOpen phase after said heeded) (fits : Fits phase before) (once : before ≤ 1) :
    before + said ≤ 1 ↔ heeded = true := by
  cases moves with
  | cancels =>
    have none := fits.silent rfl
    exact iff_of_true (by omega) rfl
  | leaves => exact iff_of_true once rfl
  | completes going =>
    rcases fits.pending rfl with running | ⟨cancelled,-⟩
    · have none := fits.silent running
      have most := Bool.toNat_le isOpen
      exact iff_of_true (by omega) rfl
    · exact absurd cancelled going
  | fails =>
    rcases fits.pending rfl with running | ⟨cancelled,one⟩
    · have none := fits.silent running
      have most := Bool.toNat_le isOpen
      simp only at running
      exact iff_of_true (by omega) (by simp [running])
    · simp only at cancelled
      cases isOpen with
      | false => exact iff_of_true (by rw [one]; decide) rfl
      | true => exact iff_of_false (by rw [one]; decide) (by simp [cancelled])

theorem once_exact (tracked : Tracked s) (stepped : step s event = some t) : Once t ↔ heeds s event = true := by
  cases step_change stepped with
  | quiet heeds same unsaid => exact iff_of_true (fun j => (unsaid j).trans_le (tracked.once j)) heeds
  | started heeds grown unsaid => exact iff_of_true (fun j => (unsaid j).trans_le (tracked.once j)) heeds
  | moved i found moves placed sent =>
    have exactly := moves_exact moves (tracked.fits i _ found) (tracked.once i)
    rw [← exactly]
    constructor
    · intro once
      have here := once i
      rw [sent i,if_pos rfl] at here
      exact here
    · intro here j
      rw [sent j]
      by_cases same : j = i
      · rw [if_pos same,same]
        exact here
      · rw [if_neg same]
        exact tracked.once j

theorem tracked_step (tracked : Tracked s) (stepped : step s event = some t) (once : Once t) : Tracked t := by
  obtain ⟨fits,unborn,-⟩ := tracked
  cases step_change stepped with
  | quiet heeds same unsaid =>
    refine ⟨?_,?_,once⟩
    · intro i phase found
      rw [unsaid i]
      exact fits i phase (same ▸ found)
    · intro i new
      rw [unsaid i]
      exact unborn i (same ▸ new)
  | started heeds grown unsaid =>
    refine ⟨?_,?_,once⟩
    · intro i phase found
      rw [unsaid i]
      rw [grown] at found
      rcases found_append found with old | ⟨rfl,rfl⟩
      · exact fits i phase old
      · exact ⟨fun _ => unborn _ (Nat.le_refl _),fun _ => .inl rfl⟩
    · intro i new
      rw [unsaid i]
      rw [grown,List.length_append] at new
      exact unborn i (Nat.le_of_add_right_le new)
  | @moved phase after said i found moves placed sent =>
    have known : i < (phases s).length := (List.getElem?_eq_some_iff.mp found).1
    have here := once i
    rw [sent i,if_pos rfl] at here
    refine ⟨?_,?_,once⟩
    · intro j other there
      rw [placed] at there
      rw [sent j]
      rcases found_set there with ⟨rfl,rfl⟩ | ⟨apart,old⟩
      · rw [if_pos rfl]
        exact moves_fits moves (fits _ phase found) here
      · rw [if_neg apart]
        exact fits j other old
    · intro j new
      rw [placed,List.length_set] at new
      rw [sent j,if_neg (by omega),unborn j new]

theorem endings_exact (now : Int) (events : List Event) :
    Along step (fun _ _ t => Once t) (connected now) events ↔
      Along step (fun s event _ => heeds s event = true) (connected now) events := by
  have begins : Tracked (connected now) := ⟨nofun,fun _ _ => rfl,fun _ => Nat.zero_le 1⟩
  exact along_exact Tracked (fun _ _ _ tracked stepped once => tracked_step tracked stepped once)
    (fun _ _ _ tracked stepped => once_exact tracked stepped) begins

-- A session is cancelled, and then its compiler throws.
def lateFailure : List Event :=
  [.message (.compile "a".toList "list".toList),.message (.cancel "a".toList),.fails 0 "Aborted".toList]

theorem lateFailure_twice : (run step (connected 0) lateFailure).isSome = true ∧
    ¬Along step (fun _ _ t => Once t) (connected 0) lateFailure := by
  refine ⟨rfl,?_⟩
  intro once
  obtain ⟨_,one,-,_,two,-,_,three,last,-⟩ := once
  cases one; cases two; cases three
  exact absurd (last 0) (by decide)

-- What the limit is there to bound: calls of the compiler that execute.
def executing (s : State) : Nat := s.compiles.countP (·.awaiting)

def tracked (s : State) (i : Nat) : Bool := (s.sessions.map (·.2)).contains i

-- Calls that execute and that no running session of the Map stands for: it was
-- cancelled, or a timer of an earlier session of that id has removed it.
def uncounted (s : State) : Nat :=
  (List.range s.compiles.length).countP fun i => (underway s i).isSome && !(isRunning s i && tracked s i)

def accepts (s : State) : Event → Bool
  | .message (.compile sessionId _) =>
    s.isOpen && (s.sessions.lookup sessionId).isNone && runningCount s < MAX_CONCURRENT_COMPILATIONS
  | _ => false

-- No compile message is accepted while the calls that the limit does not count
-- use up what the running sessions leave of it.
def spares (s : State) (event : Event) : Bool :=
  !accepts s event || runningCount s + uncounted s < MAX_CONCURRENT_COMPILATIONS

@[simp] theorem sendMessages_sessions (s : State) (start : Option Nat) (messages : List ServerMessage) :
    (sendMessages s start messages).sessions = s.sessions := by
  unfold sendMessages
  split <;> rfl

-- What a step does to the Map: it lets sessions go, or takes one in for an
-- accepted message.
inductive Holding (s : State) (accepted : Bool) (t : State) : Prop where
  | kept (refused : accepted = false) (fewer : t.sessions.Sublist s.sessions) (same : t.compiles.length = s.compiles.length)
  | entered (taken : accepted = true) (sessionId : Text) (new : t.sessions = s.sessions ++ [(sessionId,s.compiles.length)])
      (grown : phases t = phases s ++ [(.running,true)])

theorem holding_kept (refused : accepted = false) (same : t.sessions = s.sessions) (length : t.compiles.length = s.compiles.length) :
    Holding s accepted t := .kept refused (same ▸ List.Sublist.refl _) length

theorem holding_sent (s : State) (start : Option Nat) (messages : List ServerMessage) :
    Holding s false (sendMessages s start messages) := by
  apply holding_kept rfl
  · apply sendMessages_sessions
  · rw [sendMessages_compiles]

theorem compile_holding (s : State) (sessionId configurationName : Text) (live : s.isOpen = true) :
    Holding s (accepts s (.message (.compile sessionId configurationName))) (handleCompileRequest s sessionId configurationName) := by
  cases known : s.sessions.lookup sessionId with
  | some i =>
    have refused : accepts s (.message (.compile sessionId configurationName)) = false := by
      simp [accepts,known]
    rw [refused,handleCompileRequest,known,Option.isSome_some,if_pos rfl]
    apply holding_sent
  | none =>
    rw [handleCompileRequest,known,Option.isSome_none,if_neg Bool.false_ne_true]
    by_cases full : runningCount s ≥ MAX_CONCURRENT_COMPILATIONS
    · have refused : accepts s (.message (.compile sessionId configurationName)) = false := by
        simp [accepts,full]
      rw [refused,if_pos full]
      apply holding_sent
    · have taken : accepts s (.message (.compile sessionId configurationName)) = true := by
        simp [accepts,live,known,Nat.lt_of_not_le full]
      rw [taken,if_neg full]
      refine .entered rfl sessionId ?_ ?_
      · rw [sendMessage,sendMessages_sessions]
      · rw [sendMessage,phases_send]
        exact List.map_append

theorem told_holding (s : State) (i : Nat) (after : Compile) (messages : List ServerMessage) (ms : Nat) (sessionId : Text) :
    Holding s false (setTimer (sendMessages (setSession s i after) (some i) messages) ms sessionId) := by
  apply holding_kept rfl
  · exact sendMessages_sessions _ _ _
  · change (sendMessages _ _ _).compiles.length = _
    rw [sendMessages_compiles,setSession,List.length_set]

theorem cancel_holding (s : State) (sessionId : Text) : Holding s false (handleCancelRequest s sessionId) := by
  unfold handleCancelRequest
  split
  · apply holding_sent
  · split
    · apply holding_sent
    · apply told_holding

theorem step_holding (stepped : step s event = some t) : Holding s (accepts s event) t := by
  cases event with
  | message message =>
    obtain ⟨live,reached⟩ := Option.ite_none_right_eq_some.mp stepped
    obtain rfl := Option.some.inj reached
    cases message with
    | compile sessionId configurationName => exact compile_holding s sessionId configurationName live
    | cancel sessionId => exact cancel_holding s sessionId
    | pause sessionId => apply holding_sent
    | resume sessionId => apply holding_sent
    | ping => exact holding_kept rfl (sendMessages_sessions _ none _) (congrArg List.length (sendMessages_compiles _ none _))
  | progress i eventType data =>
    obtain ⟨compile,-,reached⟩ := Option.bind_eq_some_iff.mp stepped
    obtain rfl := Option.some.inj reached
    apply holding_sent
  | succeeds i rules diagnostics =>
    obtain ⟨compile,-,reached⟩ := Option.bind_eq_some_iff.mp stepped
    obtain rfl := Option.some.inj reached
    unfold compiled
    split
    · apply holding_kept rfl
      · rfl
      · apply List.length_set
    · apply told_holding
  | fails i error =>
    obtain ⟨compile,-,reached⟩ := Option.bind_eq_some_iff.mp stepped
    obtain rfl := Option.some.inj reached
    apply told_holding
  | timer k =>
    obtain ⟨timer,-,reached⟩ := Option.bind_eq_some_iff.mp stepped
    obtain ⟨-,equal⟩ := Option.ite_none_right_eq_some.mp reached
    obtain rfl := Option.some.inj equal
    exact .kept rfl List.filter_sublist rfl
  | advance ms =>
    cases stepped
    exact holding_kept rfl rfl rfl
  | close =>
    obtain ⟨-,reached⟩ := Option.ite_none_right_eq_some.mp stepped
    obtain rfl := Option.some.inj reached
    exact .kept rfl (List.nil_sublist _) List.length_mapIdx

-- The Map has at most one entry for each call, and a running session one that
-- executes.
structure Counted (s : State) : Prop where
  apart : (s.sessions.map (·.2)).Nodup
  known : ∀ i ∈ s.sessions.map (·.2), i < s.compiles.length
  live : ∀ phase ∈ phases s, phase.1 = .running → phase.2 = true

theorem moves_live (moves : Moves isOpen phase after said heeded) : after.1 ≠ .running ∧ (after.2 = true → phase.2 = true) := by
  cases moves with
  | cancels => exact ⟨nofun,id⟩
  | leaves => exact ⟨nofun,nofun⟩
  | completes going => exact ⟨nofun,nofun⟩
  | fails => exact ⟨nofun,nofun⟩

theorem counted_step (counted : Counted s) (stepped : step s event = some t) : Counted t := by
  obtain ⟨apart,known,live⟩ := counted
  have alive : ∀ phase ∈ phases t, phase.1 = .running → phase.2 = true := by
    cases step_change stepped with
    | quiet heeds same unsaid => rwa [same]
    | started heeds grown unsaid =>
      rw [grown]
      exact forall_append live fun _ => rfl
    | moved i found moves placed sent =>
      rw [placed]
      exact forall_set live fun running => absurd running (moves_live moves).1
  cases step_holding stepped with
  | kept refused fewer same =>
    have places := fewer.map (·.2)
    refine ⟨apart.sublist places,?_,alive⟩
    intro i member
    rw [same]
    exact known i (places.subset member)
  | entered taken sessionId new grown =>
    have length := congrArg List.length grown
    rw [List.length_append,phases,phases,List.length_map,List.length_map,List.length_singleton] at length
    refine ⟨?_,?_,alive⟩
    · rw [new,List.map_append,List.nodup_append']
      refine ⟨apart,List.nodup_singleton _,?_⟩
      rw [List.map_singleton,List.disjoint_singleton]
      exact fun member => Nat.lt_irrefl _ (known _ member)
    · rw [new,List.map_append,length]
      apply forall_append
      · exact fun i member => Nat.lt_succ_of_lt (known i member)
      · exact Nat.lt_succ_self _

theorem found_any (items : List α) (p : α → Bool) : items.countP p = (List.range items.length).countP fun i => items[i]?.any p := by
  induction items using List.reverseRecOn with
  | nil => rfl
  | append_singleton items item ih =>
    rw [List.countP_append,List.length_append,List.length_singleton,List.range_succ,List.countP_append,ih]
    congr 1
    · refine List.countP_congr ?_
      intro i member
      rw [List.getElem?_append_left (List.mem_range.mp member)]
    · simp [List.countP_singleton]

-- Distinct places below a bound, counted among all places below it.
theorem places_counted {places : List Nat} (apart : places.Nodup) (below : ∀ i ∈ places, i < n) (p : Nat → Bool) :
    places.countP p = (List.range n).countP fun i => p i && places.contains i := by
  rw [List.countP_eq_length_filter,List.countP_eq_length_filter]
  refine List.Perm.length_eq ?_
  refine (List.perm_ext_iff_of_nodup (apart.filter _) (List.nodup_range.filter _)).mpr ?_
  intro i
  simp only [List.mem_filter,List.mem_range,Bool.and_eq_true,List.contains_iff_mem]
  constructor
  · intro held
    exact ⟨below i held.1,held.2,held.1⟩
  · intro held
    exact ⟨held.2.2,held.2.1⟩

theorem executing_split (counted : Counted s) : executing s = runningCount s + uncounted s := by
  have among : runningCount s = (List.range s.compiles.length).countP fun i => isRunning s i && tracked s i := by
    have places := places_counted counted.apart counted.known (isRunning s)
    rwa [List.countP_map] at places
  have all : executing s = (List.range s.compiles.length).countP fun i => (underway s i).isSome := by
    rw [executing,found_any]
    refine List.countP_congr ?_
    intro i _
    simp only [underway,Option.isSome_filter]
  rw [all,among,uncounted,List.countP_eq_countP_filter_add _ _ fun i => isRunning s i && tracked s i,List.countP_filter,List.countP_filter]
  congr 1
  refine List.countP_congr ?_
  intro i _
  constructor
  · intro held
    exact (Bool.and_eq_true_iff.mp held).2
  · intro held
    refine Bool.and_eq_true_iff.mpr ⟨?_,held⟩
    have running := (Bool.and_eq_true_iff.mp held).1
    cases found : s.compiles[i]? with
    | none => simp [isRunning,found] at running
    | some compile =>
      have status : compile.session.status = .running := by simpa [isRunning,found] using running
      have awaiting := counted.live compile.phase (List.mem_of_getElem? (phase_found found)) status
      rw [underway,found,Option.filter_some]
      exact congrArg Option.isSome (if_pos awaiting)

theorem executing_phases (s : State) : executing s = (phases s).countP (·.2) := by
  rw [phases,List.countP_map]
  rfl

theorem executing_step (stepped : step s event = some t) :
    (accepts s event = false ∧ executing t ≤ executing s) ∨ (accepts s event = true ∧ executing t = executing s+1) := by
  cases step_holding stepped with
  | kept refused fewer same =>
    refine .inl ⟨refused,?_⟩
    rw [executing_phases,executing_phases]
    cases step_change stepped with
    | quiet heeds equal unsaid => rw [equal]
    | started heeds grown unsaid =>
      have length := congrArg List.length grown
      rw [List.length_append,phases,phases,List.length_map,List.length_map,same] at length
      exact absurd length (Nat.ne_of_lt (Nat.lt_succ_self _))
    | @moved phase after said i found moves placed sent =>
      obtain ⟨place,here⟩ := List.getElem?_eq_some_iff.mp found
      rw [placed,List.countP_set place,here]
      cases running : after.2 with
      | false => exact Nat.sub_le _ _
      | true =>
        have before := (moves_live moves).2 running
        have one := List.countP_pos_iff.mpr ⟨_,List.mem_of_getElem? found,before⟩
        rw [if_pos before,if_pos rfl]
        exact (Nat.sub_add_cancel one).le
  | entered taken sessionId new grown =>
    refine .inr ⟨taken,?_⟩
    rw [executing_phases,executing_phases,grown,List.countP_append]
    rfl

def Limited (s : State) : Prop := executing s ≤ MAX_CONCURRENT_COMPILATIONS

theorem limited_exact (counted : Counted s) (limited : Limited s) (stepped : step s event = some t) :
    Limited t ↔ spares s event = true := by
  have split := executing_split counted
  unfold Limited at *
  rcases executing_step stepped with ⟨refused,fewer⟩ | ⟨taken,more⟩
  · refine iff_of_true (fewer.trans limited) ?_
    rw [spares,refused]
    rfl
  · rw [spares,taken,more,split,Nat.succ_le_iff]
    simp

theorem executions_exact (now : Int) (events : List Event) :
    Along step (fun _ _ t => executing t ≤ MAX_CONCURRENT_COMPILATIONS) (connected now) events ↔
      Along step (fun s event _ => spares s event = true) (connected now) events := by
  have begins : Counted (connected now) ∧ Limited (connected now) := ⟨⟨List.nodup_nil,nofun,nofun⟩,Nat.zero_le _⟩
  refine along_exact (fun s => Counted s ∧ Limited s) ?_ ?_ begins
  · intro s event t invariant stepped limited
    exact ⟨counted_step invariant.1 stepped,limited⟩
  · intro s event t invariant stepped
    exact limited_exact invariant.1 invariant.2 stepped

-- Every compilation is cancelled as soon as it has started; the fourth starts
-- with three still executing.
def startAndCancel : List Event :=
  [.message (.compile "a".toList "list".toList),.message (.cancel "a".toList),
    .message (.compile "b".toList "list".toList),.message (.cancel "b".toList),
    .message (.compile "c".toList "list".toList),.message (.cancel "c".toList),.message (.compile "d".toList "list".toList)]

theorem startAndCancel_four : (run step (connected 0) startAndCancel).map executing = some 4 ∧
    ¬Along step (fun _ _ t => executing t ≤ MAX_CONCURRENT_COMPILATIONS) (connected 0) startAndCancel := by
  have four : (run step (connected 0) startAndCancel).map executing = some 4 := by decide
  refine ⟨four,?_⟩
  intro along
  obtain ⟨t,ran,count⟩ := Option.map_eq_some_iff.mp four
  have bounded := along_reaches (Q := fun t => executing t ≤ MAX_CONCURRENT_COMPILATIONS) (Nat.zero_le _) along ran
  rw [count] at bounded
  exact absurd bounded (by decide)

end AdblockCompiler.WebSocket
