import AdblockCompiler.Downloader
import AdblockCompiler.Schedules

namespace AdblockCompiler.Download
open JsText NestedBlocks Preprocessor Paths

-- A processDirectives in progress: what it is called with, the pieces it still
-- has to go through and the lines it has.
structure Frame where
  basePath : Text
  room : Nat
  todo : List Piece
  result : List Text

-- Where a call of download is, with the calls of processDirectives that await
-- what is nested in them, the innermost first.
inductive Control where
  | waiting
  | fetching (source : Text) (room : Nat) (callers : List Frame)
  | processing (frame : Frame) (callers : List Frame)
  | returned (result : Except Thrown (List Text))

-- own is what the call itself has added to visitedUrls. No step reads it.
structure Call where
  source : Text
  own : List Text := []
  control : Control := .waiting

-- One downloader instance and the calls of its method download.
structure Shared where
  visitedUrls : List Text
  calls : List Call

-- downloadInternal has come to a result. An include branch pushes its lines or
-- catches what was thrown.
def settle (result : Except Thrown (List Text)) : List Frame → Control
  | [] => .returned result
  | caller :: callers => .processing { caller with result := caller.result ++ result.toOption.getD [] } callers

-- The synchronous start of downloadInternal, up to its fetch.
def enter (visitedUrls : List Text) (call : Call) (source : Text) (room : Nat) (callers : List Frame) : List Text × Call :=
  if source ∈ visitedUrls then (visitedUrls,{ call with control := settle (.ok []) callers })
  else
    match room with
    | 0 => (visitedUrls,{ call with control := settle (.ok []) callers })
    | room+1 => (source :: visitedUrls,{ call with own := source :: call.own, control := .fetching source room callers })

section Steps
variable (d : Downloader)

-- Other calls may go on between any two of these steps; in the code they can
-- where a fetch or a nested call is awaited.
def Call.step (visitedUrls : List Text) (call : Call) : Option (List Text × Call) :=
  match call.control with
  | .waiting => some (enter [] call call.source (d.maxIncludeDepth+1) [])
  | .fetching source room callers =>
    match d.read source with
    | .error thrown => some (visitedUrls,{ call with control := settle (.error thrown) callers })
    | .ok content => some (visitedUrls,{ call with control := .processing ⟨source,room,d.contents content,[]⟩ callers })
  | .processing frame callers =>
    match frame.todo with
    | [] => some (visitedUrls,{ call with control := settle (.ok frame.result) callers })
    | .line text :: more =>
      some (visitedUrls,{ call with control := .processing { frame with todo := more, result := frame.result ++ [text] } callers })
    | .inclusion path :: more =>
      match d.resolveIncludePath path frame.basePath with
      | .error thrown => some (visitedUrls,{ call with control := settle (.error thrown) callers })
      | .ok resolvedPath => some (enter visitedUrls call resolvedPath frame.room ({ frame with todo := more } :: callers))
  | .returned _ => none

def step (s : Shared) (i : Nat) : Option Shared :=
  s.calls[i]?.bind fun call => (call.step d s.visitedUrls).map fun after => ⟨after.1,s.calls.set i after.2⟩

def start (visitedUrls : List Text) (sources : List Text) : Shared := ⟨visitedUrls,sources.map fun source => { source := source }⟩

-- The source an include branch is about to ask visitedUrls for.
def Call.asks (call : Call) : Option Text :=
  match call.control with
  | .processing ⟨basePath,_,.inclusion path :: _,_⟩ _ => (d.resolveIncludePath path basePath).toOption
  | _ => none

-- The set answers as the call's own visits would.
def undisturbed (s : Shared) (i : Nat) : Bool :=
  s.calls[i]?.all fun call => (call.asks d).all fun source => decide (source ∈ s.visitedUrls) == decide (source ∈ call.own)

end Steps

-- Every way a call can go on.
inductive Change (d : Downloader) (visitedUrls : List Text) (source : Text) (own : List Text) : Control → List Text × Call → Prop where
  | begins : Change d visitedUrls source own .waiting (enter [] ⟨source,own,.waiting⟩ source (d.maxIncludeDepth+1) [])
  | fails (found : d.read asked = .error thrown) : Change d visitedUrls source own (.fetching asked room callers)
      (visitedUrls,⟨source,own,settle (.error thrown) callers⟩)
  | reads (found : d.read asked = .ok content) : Change d visitedUrls source own (.fetching asked room callers)
      (visitedUrls,⟨source,own,.processing ⟨asked,room,d.contents content,[]⟩ callers⟩)
  | ends : Change d visitedUrls source own (.processing ⟨basePath,room,[],result⟩ callers)
      (visitedUrls,⟨source,own,settle (.ok result) callers⟩)
  | pushes : Change d visitedUrls source own (.processing ⟨basePath,room,.line text :: more,result⟩ callers)
      (visitedUrls,⟨source,own,.processing ⟨basePath,room,more,result ++ [text]⟩ callers⟩)
  | throws (resolved : d.resolveIncludePath path basePath = .error thrown) :
      Change d visitedUrls source own (.processing ⟨basePath,room,.inclusion path :: more,result⟩ callers)
        (visitedUrls,⟨source,own,settle (.error thrown) callers⟩)
  | includes (resolved : d.resolveIncludePath path basePath = .ok resolvedPath) :
      Change d visitedUrls source own (.processing ⟨basePath,room,.inclusion path :: more,result⟩ callers)
        (enter visitedUrls ⟨source,own,.processing ⟨basePath,room,.inclusion path :: more,result⟩ callers⟩ resolvedPath room
          (⟨basePath,room,more,result⟩ :: callers))

theorem step_change (d : Downloader) (visitedUrls : List Text) (call : Call) (stepped : call.step d visitedUrls = some after) :
    Change d visitedUrls call.source call.own call.control after := by
  obtain ⟨source,own,control⟩ := call
  unfold Call.step at stepped
  dsimp only at stepped ⊢
  cases control with
  | waiting => exact Option.some.inj stepped ▸ .begins
  | fetching asked room callers =>
    dsimp only at stepped
    cases found : d.read asked with
    | error thrown =>
      rw [found] at stepped
      exact Option.some.inj stepped ▸ .fails found
    | ok content =>
      rw [found] at stepped
      exact Option.some.inj stepped ▸ .reads found
  | processing frame callers =>
    obtain ⟨basePath,room,todo,result⟩ := frame
    cases todo with
    | nil => exact Option.some.inj stepped ▸ .ends
    | cons item more =>
      cases item with
      | line text => exact Option.some.inj stepped ▸ .pushes
      | inclusion path =>
        dsimp only at stepped
        cases resolved : d.resolveIncludePath path basePath with
        | error thrown =>
          rw [resolved] at stepped
          exact Option.some.inj stepped ▸ .throws resolved
        | ok resolvedPath =>
          rw [resolved] at stepped
          exact Option.some.inj stepped ▸ .includes resolved
  | returned result => cases stepped

theorem enter_source (visitedUrls : List Text) (call : Call) (source : Text) (room : Nat) (callers : List Frame) :
    (enter visitedUrls call source room callers).2.source = call.source ∧ (enter visitedUrls call source room callers).2.control ≠ .waiting := by
  have settled (result : Except Thrown (List Text)) : settle result callers ≠ .waiting := by
    cases callers <;> exact Control.noConfusion
  unfold enter
  split
  · exact ⟨rfl,settled _⟩
  · cases room with
    | zero => exact ⟨rfl,settled _⟩
    | succ room => exact ⟨rfl,Control.noConfusion⟩

-- What a call comes to when it goes on alone.
section Alone
variable (d : Downloader)

def fetched (source : Text) (room : Nat) (own : List Text) : Outcome (List Text) :=
  match d.read source with
  | .error thrown => (.error thrown,own)
  | .ok content => runPieces (d.environment room source) (d.contents content) own

def goOn : List Frame → Outcome (List Text) → Outcome (List Text)
  | [],outcome => outcome
  | caller :: callers,(result,own) =>
    goOn callers (Outcome.andThen (.ok (caller.result ++ result.toOption.getD []),own)
      (runPieces (d.environment caller.room caller.basePath) caller.todo))

def Call.outcome (call : Call) : Outcome (List Text) :=
  match call.control with
  | .waiting => d.download call.source
  | .fetching source room callers => goOn d callers (fetched d source room call.own)
  | .processing frame callers =>
    goOn d callers (Outcome.andThen (.ok frame.result,call.own) (runPieces (d.environment frame.room frame.basePath) frame.todo))
  | .returned result => (result,call.own)

theorem download_fetched (room : Nat) (fresh : source ∉ own) : downloadInternal d (room+1) source own = fetched d source room (source :: own) := by
  unfold fetched
  cases found : d.read source with
  | error thrown => exact download_fails d room fresh found
  | ok content => exact download_reads d room fresh found

theorem settle_outcome (source : Text) (own : List Text) (result : Except Thrown (List Text)) (callers : List Frame) :
    (⟨source,own,settle result callers⟩ : Call).outcome d = goOn d callers (result,own) := by
  cases callers with
  | nil => rfl
  | cons caller callers => rfl

theorem enter_outcome (visitedUrls : List Text) (call : Call) (source : Text) (room : Nat) (callers : List Frame)
    (alike : source ∈ visitedUrls ↔ source ∈ call.own) :
    (enter visitedUrls call source room callers).2.outcome d = goOn d callers (downloadInternal d room source call.own) := by
  unfold enter
  split
  · rename_i seen
    rw [download_seen d room (alike.mp seen)]
    exact settle_outcome d call.source call.own _ callers
  · rename_i fresh
    have new : source ∉ call.own := fun own => fresh (alike.mpr own)
    cases room with
    | zero => exact settle_outcome d call.source call.own _ callers
    | succ room => exact congrArg (goOn d callers) (download_fetched d room new).symm

theorem included_outcome (env : Environment (List Text)) (result own : List Text) (more : List Piece)
    (resolved : env.resolveIncludePath path = .ok resolvedPath) :
    Outcome.andThen (.ok result,own) (runPieces env (.inclusion path :: more)) =
      Outcome.andThen (.ok (result ++ (env.downloadInternal resolvedPath own).1.toOption.getD []),(env.downloadInternal resolvedPath own).2)
        (runPieces env more) := by
  have branch : includeBranch env path own =
      (.ok ((env.downloadInternal resolvedPath own).1.toOption.getD []),(env.downloadInternal resolvedPath own).2) := by
    unfold includeBranch
    rw [resolved]
    dsimp only
    rcases env.downloadInternal resolvedPath own with ⟨thrown | lines,after⟩
    · rfl
    · rfl
  have first : Outcome.andThen (.ok result,own) (includeBranch env path) =
      (.ok (result ++ (env.downloadInternal resolvedPath own).1.toOption.getD []),(env.downloadInternal resolvedPath own).2) := by
    simp only [Outcome.andThen,branch]
  rw [← first,andThen_assoc]
  rfl

theorem line_outcome (env : Environment (List Text)) (result own : List Text) (text : Text) (more : List Piece) :
    Outcome.andThen (.ok result,own) (runPieces env (.line text :: more)) = Outcome.andThen (.ok (result ++ [text]),own) (runPieces env more) :=
  (andThen_assoc (.ok result,own) (fun s => (.ok [text],s)) (runPieces env more)).symm

theorem last_outcome (env : Environment (List Text)) (result own : List Text) :
    Outcome.andThen (.ok result,own) (runPieces env []) = (.ok result,own) := by simp [Outcome.andThen,runPieces]

theorem throws_outcome (env : Environment (List Text)) (result own : List Text) (more : List Piece)
    (resolved : env.resolveIncludePath path = .error thrown) :
    Outcome.andThen (.ok result,own) (runPieces env (.inclusion path :: more)) = (.error thrown,own) := by
  have branch : runPieces env (.inclusion path :: more) own = (.error thrown,own) := by
    rw [runPieces,includeBranch_error env own resolved]
    rfl
  simp only [Outcome.andThen,branch]

-- A step keeps what its call comes to, where the set answers as it should.
theorem step_outcome (visitedUrls : List Text) (call : Call) (stepped : call.step d visitedUrls = some after)
    (alike : ∀ source, call.asks d = some source → (source ∈ visitedUrls ↔ source ∈ call.own))
    (fresh : call.control = .waiting → call.own = []) : after.2.outcome d = call.outcome d := by
  have change := step_change d visitedUrls call stepped
  obtain ⟨source,own,control⟩ := call
  unfold Call.outcome
  cases change with
  | begins =>
    obtain rfl : own = [] := fresh rfl
    exact enter_outcome d [] ⟨source,[],.waiting⟩ source (d.maxIncludeDepth+1) [] Iff.rfl
  | @fails asked thrown room callers found =>
    have answer : fetched d asked room own = (.error thrown,own) := by rw [fetched,found]
    exact (settle_outcome d source own _ callers).trans (congrArg (goOn d callers) answer.symm)
  | @reads asked content room callers found =>
    have answer : fetched d asked room own = runPieces (d.environment room asked) (d.contents content) own := by rw [fetched,found]
    exact congrArg (goOn d callers) ((nothing_andThen own _).trans answer.symm)
  | @ends basePath room result callers =>
    refine (settle_outcome d source own _ callers).trans ?_
    exact congrArg (goOn d callers) (last_outcome (d.environment room basePath) result own).symm
  | @pushes basePath room text more result callers =>
    exact congrArg (goOn d callers) (line_outcome (d.environment room basePath) result own text more).symm
  | @throws path basePath thrown room more result callers resolved =>
    refine (settle_outcome d source own _ callers).trans ?_
    exact congrArg (goOn d callers) (throws_outcome (d.environment room basePath) result own more resolved).symm
  | @includes path basePath resolvedPath room more result callers resolved =>
    have asked : Call.asks d ⟨source,own,.processing ⟨basePath,room,.inclusion path :: more,result⟩ callers⟩ = some resolvedPath := by
      unfold Call.asks
      dsimp only
      rw [resolved]
      rfl
    refine (enter_outcome d visitedUrls _ resolvedPath room _ (alike resolvedPath asked)).trans (congrArg (goOn d callers) ?_)
    exact (included_outcome (d.environment room basePath) result own more resolved).symm

end Alone

-- How many steps a call takes at most, whatever the set answers.
section Bounded
variable (d : Downloader)

def pieceSteps (nested : Text → Nat) (todo : List Piece) : Nat :=
  (todo.map fun | .line _ => 1 | .inclusion path => 1+nested path).sum+1

def nestedSteps (steps : Text → Nat) (basePath path : Text) : Nat :=
  match d.resolveIncludePath path basePath with
  | .error _ => 0
  | .ok resolvedPath => steps resolvedPath

def stepsWithin : Nat → Text → Nat
  | 0,_ => 0
  | room+1,source =>
    match d.read source with
    | .error _ => 1
    | .ok content => 1+pieceSteps (nestedSteps d (stepsWithin room) source) (d.contents content)

def Frame.steps (frame : Frame) : Nat := pieceSteps (nestedSteps d (stepsWithin d frame.room) frame.basePath) frame.todo

def callerSteps (callers : List Frame) : Nat := Schedules.total (Frame.steps d) callers

def Call.steps (call : Call) : Nat :=
  match call.control with
  | .waiting => 1+stepsWithin d (d.maxIncludeDepth+1) call.source
  | .fetching source room callers => stepsWithin d (room+1) source+callerSteps d callers
  | .processing frame callers => callerSteps d (frame :: callers)
  | .returned _ => 0

theorem callerSteps_cons (frame : Frame) (callers : List Frame) : callerSteps d (frame :: callers) = frame.steps d+callerSteps d callers := rfl

theorem settle_steps (source : Text) (own : List Text) (result : Except Thrown (List Text)) (callers : List Frame) :
    (⟨source,own,settle result callers⟩ : Call).steps d = callerSteps d callers := by
  cases callers with
  | nil => rfl
  | cons caller callers => rfl

theorem enter_steps (visitedUrls : List Text) (call : Call) (source : Text) (room : Nat) (callers : List Frame) :
    (enter visitedUrls call source room callers).2.steps d ≤ stepsWithin d room source+callerSteps d callers := by
  unfold enter
  split
  · rw [settle_steps]
    exact Nat.le_add_left _ _
  · cases room with
    | zero =>
      rw [settle_steps]
      exact Nat.le_add_left _ _
    | succ room => exact Nat.le_refl _

theorem pieceSteps_cons (nested : Text → Nat) (item : Piece) (more : List Piece) : pieceSteps nested (item :: more) =
    (match item with | .line _ => 1 | .inclusion path => 1+nested path)+pieceSteps nested more := by
  unfold pieceSteps
  rw [List.map_cons,List.sum_cons,Nat.add_assoc]

theorem frame_steps (frame : Frame) : 0 < frame.steps d := Nat.succ_pos _

theorem step_shortens (visitedUrls : List Text) (call : Call) (stepped : call.step d visitedUrls = some after) :
    after.2.source = call.source ∧ after.2.control ≠ .waiting ∧ after.2.steps d < call.steps d := by
  have change := step_change d visitedUrls call stepped
  obtain ⟨source,own,control⟩ := call
  have settled (result : Except Thrown (List Text)) (callers : List Frame) : settle result callers ≠ .waiting := by
    cases callers <;> exact Control.noConfusion
  cases change with
  | begins =>
    have entered := enter_source [] ⟨source,own,.waiting⟩ source (d.maxIncludeDepth+1) []
    have bound := enter_steps d [] ⟨source,own,.waiting⟩ source (d.maxIncludeDepth+1) []
    refine ⟨entered.1,entered.2,Nat.lt_of_le_of_lt bound ?_⟩
    exact Nat.lt_add_of_pos_left Nat.one_pos
  | @fails asked thrown room callers found =>
    refine ⟨rfl,settled _ callers,?_⟩
    have one : stepsWithin d (room+1) asked = 1 := by rw [stepsWithin,found]
    rw [settle_steps]
    change _ < stepsWithin d (room+1) asked+callerSteps d callers
    omega
  | @reads asked content room callers found =>
    refine ⟨rfl,Control.noConfusion,?_⟩
    have more : stepsWithin d (room+1) asked = 1+Frame.steps d ⟨asked,room,d.contents content,[]⟩ := by
      rw [stepsWithin,found]
      rfl
    change callerSteps d (_ :: callers) < stepsWithin d (room+1) asked+callerSteps d callers
    rw [callerSteps_cons]
    omega
  | @ends basePath room result callers =>
    refine ⟨rfl,settled _ callers,?_⟩
    rw [settle_steps]
    exact Nat.lt_add_of_pos_left (frame_steps d _)
  | @pushes basePath room text more result callers =>
    refine ⟨rfl,Control.noConfusion,?_⟩
    have step := pieceSteps_cons (nestedSteps d (stepsWithin d room) basePath) (.line text) more
    change pieceSteps _ more+callerSteps d callers < pieceSteps _ (.line text :: more)+callerSteps d callers
    rw [step]
    dsimp only
    omega
  | @throws path basePath thrown room more result callers resolved =>
    refine ⟨rfl,settled _ callers,?_⟩
    rw [settle_steps]
    exact Nat.lt_add_of_pos_left (frame_steps d _)
  | @includes path basePath resolvedPath room more result callers resolved =>
    have entered := enter_source visitedUrls ⟨source,own,.processing ⟨basePath,room,.inclusion path :: more,result⟩ callers⟩ resolvedPath room
      (⟨basePath,room,more,result⟩ :: callers)
    have bound := enter_steps d visitedUrls ⟨source,own,.processing ⟨basePath,room,.inclusion path :: more,result⟩ callers⟩ resolvedPath room
      (⟨basePath,room,more,result⟩ :: callers)
    refine ⟨entered.1,entered.2,Nat.lt_of_le_of_lt bound ?_⟩
    have step := pieceSteps_cons (nestedSteps d (stepsWithin d room) basePath) (.inclusion path) more
    have nested : nestedSteps d (stepsWithin d room) basePath path = stepsWithin d room resolvedPath := by rw [nestedSteps,resolved]
    change stepsWithin d room resolvedPath+(pieceSteps _ more+callerSteps d callers) < pieceSteps _ (.inclusion path :: more)+callerSteps d callers
    rw [step]
    dsimp only
    rw [nested]
    omega

end Bounded

section Together
variable (d : Downloader)

structure Call.Sound (call : Call) : Prop where
  outcome : (call.outcome d).1 = (d.download call.source).1
  own : call.control = .waiting → call.own = []

def Shared.Sound (s : Shared) : Prop := ∀ call ∈ s.calls, call.Sound d

theorem start_sound (visitedUrls sources : List Text) : (start visitedUrls sources).Sound d := by
  intro call member
  obtain ⟨source,-,rfl⟩ := List.mem_map.mp member
  exact ⟨rfl,fun _ => rfl⟩

theorem step_cases (s t : Shared) (i : Nat) (stepped : step d s i = some t) :
    ∃ call after, s.calls[i]? = some call ∧ call.step d s.visitedUrls = some after ∧ t = ⟨after.1,s.calls.set i after.2⟩ := by
  obtain ⟨call,found,goes⟩ := Option.bind_eq_some_iff.mp stepped
  obtain ⟨after,went,rfl⟩ := Option.map_eq_some_iff.mp goes
  exact ⟨call,after,found,went,rfl⟩

theorem sound_step (s : Shared) (i : Nat) (t : Shared) (sound : s.Sound d) (stepped : step d s i = some t)
    (calm : undisturbed d s i = true) : t.Sound d := by
  obtain ⟨call,after,found,went,rfl⟩ := step_cases d s t i stepped
  have old := sound call (List.mem_of_getElem? found)
  obtain ⟨same,started,-⟩ := step_shortens d s.visitedUrls call went
  apply Schedules.forall_set sound
  refine ⟨?_,fun waiting => absurd waiting started⟩
  have alike : ∀ source, call.asks d = some source → (source ∈ s.visitedUrls ↔ source ∈ call.own) := by
    intro source asked
    rw [undisturbed,found,Option.all_some,asked,Option.all_some,beq_iff_eq,decide_eq_decide] at calm
    exact calm
  rw [step_outcome d s.visitedUrls call went alike old.own,same]
  exact old.outcome

-- Each step of a call is one of those it can take, and others do not add to them.
theorem run_bounded (s t : Shared) (events : List Nat) (ran : Schedules.run (step d) s events = some t) (found : s.calls[i]? = some call) :
    ∃ later, t.calls[i]? = some later ∧ later.source = call.source ∧ events.count i+later.steps d ≤ call.steps d := by
  induction events generalizing s call with
  | nil =>
    cases ran
    exact ⟨call,found,rfl,by simp⟩
  | cons event rest ih =>
    obtain ⟨next,stepped,after⟩ := Schedules.run_cons.mp ran
    obtain ⟨other,moved,held,went,rfl⟩ := step_cases d s next event stepped
    by_cases mine : event = i
    · subst mine
      obtain rfl := Option.some.inj (found.symm.trans held)
      obtain ⟨same,-,fewer⟩ := step_shortens d s.visitedUrls call went
      obtain ⟨later,reached,source,bound⟩ := ih _ after (Schedules.placed_set held moved.2)
      refine ⟨later,reached,source.trans same,?_⟩
      rw [List.count_cons_self]
      omega
    · have kept : (s.calls.set event moved.2)[i]? = some call := by rw [List.getElem?_set_ne mine,found]
      obtain ⟨later,reached,source,bound⟩ := ih _ after kept
      refine ⟨later,reached,source,?_⟩
      rw [List.count_cons_of_ne mine]
      exact bound

-- A call that has not returned can go on, and does so a bounded number of times.
def Alone (sources : List Text) (events : List Nat) (t : Shared) : Prop :=
  ∀ i source, sources[i]? = some source → ∃ call, t.calls[i]? = some call ∧
    (call.control = .returned (d.download source).1 ∨
      ((∀ result, call.control ≠ .returned result) ∧ (step d t i).isSome = true ∧
        events.count i < 1+stepsWithin d (d.maxIncludeDepth+1) source))

theorem running_steps (visitedUrls : List Text) (call : Call) (running : ∀ result, call.control ≠ .returned result) :
    (call.step d visitedUrls).isSome = true := by
  obtain ⟨source,own,control⟩ := call
  cases control with
  | waiting => rfl
  | fetching asked room callers =>
    unfold Call.step
    dsimp only
    split <;> rfl
  | processing frame callers =>
    obtain ⟨basePath,room,todo,result⟩ := frame
    cases todo with
    | nil => rfl
    | cons item more =>
      cases item with
      | line text => rfl
      | inclusion path =>
        unfold Call.step
        dsimp only
        split <;> rfl
  | returned result => exact absurd rfl (running result)

theorem downloads_alone (visitedUrls sources : List Text) (events : List Nat) (t : Shared)
    (ran : Schedules.run (step d) (start visitedUrls sources) events = some t)
    (calm : Schedules.Along (step d) (fun s i _ => undisturbed d s i = true) (start visitedUrls sources) events) :
    Alone d sources events t := by
  have sound : t.Sound d := Schedules.along_keeps (Shared.Sound d) (sound_step d) (start_sound d visitedUrls sources) calm ran
  intro i source asked
  have found : (start visitedUrls sources).calls[i]? = some { source := source } := by
    rw [start,List.getElem?_map,asked]
    rfl
  obtain ⟨call,reached,same,bound⟩ := run_bounded d _ t events ran found
  refine ⟨call,reached,?_⟩
  have outcome := (sound call (List.mem_of_getElem? reached)).outcome
  rw [same] at outcome
  by_cases returned : ∃ result, call.control = .returned result
  · obtain ⟨result,back⟩ := returned
    refine .inl ?_
    rw [Call.outcome,back] at outcome
    rw [back,← outcome]
  · have running : ∀ result, call.control ≠ .returned result := fun result back => returned ⟨result,back⟩
    obtain ⟨after,went⟩ := Option.isSome_iff_exists.mp (running_steps d t.visitedUrls call running)
    refine .inr ⟨running,?_,?_⟩
    · rw [step,reached,Option.bind_some,went]
      rfl
    · have fewer := (step_shortens d t.visitedUrls call went).2.2
      change _ ≤ 1+stepsWithin d (d.maxIncludeDepth+1) source at bound
      omega

end Together

-- Two lists that include a third.
def sharedLists : FilterDownloader where
  fetchUrl _ := .error []
  readFile path := if path = ['a'] ∨ path = ['b'] then .ok "!#include c".toList else .ok ['x']
  newURL _ _ := .error []
  toLowerCase := lowerCase

-- The first call asks for the third list before the second one does.
theorem include_lost : ∃ t, Schedules.run (step sharedLists.downloader) (start [] [['a'],['b']]) [0,1,0,0,1,1,1] = some t ∧
    ¬Alone sharedLists.downloader [['a'],['b']] [0,1,0,0,1,1,1] t := by
  refine ⟨_,rfl,?_⟩
  intro alone
  obtain ⟨call,reached,either⟩ := alone 1 ['b'] rfl
  cases reached
  rcases either with same | ⟨running,-⟩
  · have results := Control.returned.inj same
    exact absurd results (by decide)
  · exact running _ rfl

theorem apart_alone : ∃ t, Schedules.run (step sharedLists.downloader) (start [['a']] [['c'],['b']]) [0,0,1,0,0,1,1,1,1,1,1] = some t ∧
    Alone sharedLists.downloader [['c'],['b']] [0,0,1,0,0,1,1,1,1,1,1] t :=
  ⟨_,rfl,downloads_alone sharedLists.downloader [['a']] [['c'],['b']] _ _ rfl (Schedules.along_guarded.mpr (by decide))⟩

end AdblockCompiler.Download
