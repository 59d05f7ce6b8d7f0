import AdblockCompiler.ConcurrentDownloads
import AdblockCompiler.Retries

-- download of FilterDownloader step by step: every call of downloadInternal and
-- of processDirectives, and every turn of the loop in the latter.
namespace AdblockCompiler.DownloadSteps
open JsText Preprocessor Download Retries

-- The inner loop that skips a safari_cb_affinity block, on the lines not read
-- yet, with the index it leaves at.
def safariLoop : Nat → List Text → Nat
  | i,[] => i
  | i,line :: rest =>
    if starts line .Safari && (trim line).length == DirectiveType.Safari.text.length then i+1 else safariLoop (i+1) rest

-- A call of processDirectives in progress.
structure Frame where
  lines : List Text
  i : Nat
  basePath : Text
  depth : Nat
  result : List Text

-- A call that awaits a nested one. Its frame is at the index it goes on with;
-- the include branch catches what is thrown.
structure Caller where
  frame : Frame
  catches : Bool

inductive Control where
  | calling (source : Text) (depth : Nat)
  | running (frame : Frame)
  | returning (result : Except Thrown (List Text))

-- fetched lists what was asked of the network or the disk. No step reads it.
structure State where
  visitedUrls : List Text
  fetched : List Text
  control : Control
  callers : List Caller

section Steps
variable (d : Downloader) (maxIncludeDepth : ℚ)

def downloadInternal (s : State) (source : Text) (depth : Nat) : State :=
  if source ∈ s.visitedUrls then { s with control := .returning (.ok []) }
  else if (depth : ℚ) > maxIncludeDepth then { s with control := .returning (.ok []) }
  else
    { s with
      visitedUrls := source :: s.visitedUrls
      fetched := s.fetched ++ [source]
      control :=
        match d.read source with
        | .error thrown => .returning (.error thrown)
        | .ok content => .running ⟨documentLines content,0,source,depth,[]⟩ }

def nested (s : State) (frame : Frame) (lines : List Text) : State :=
  { s with
    control := .running ⟨lines,0,frame.basePath,frame.depth,[]⟩
    callers := ⟨frame,false⟩ :: s.callers }

-- One turn of the while loop.
def iterate (s : State) (frame : Frame) : State :=
  match frame.lines[frame.i]? with
  | none => { s with control := .returning (.ok frame.result) }
  | some line =>
    if starts line .If then
      let block := parseConditionalBlock frame.lines frame.i
      let after := { frame with i := findEndIfIndex frame.lines frame.i+1 }
      if d.evaluateCondition (conditionOf line) then nested s after block.ifLines
      else if block.elseLines.length > 0 then nested s after block.elseLines
      else { s with control := .running after }
    else if starts line .Include then
      match d.resolveIncludePath (includePathOf line) frame.basePath with
      | .error thrown => { s with control := .returning (.error thrown) }
      | .ok resolvedPath =>
        { s with
          control := .calling resolvedPath (frame.depth+1)
          callers := ⟨{ frame with i := frame.i+1 },true⟩ :: s.callers }
    else if starts line .Safari then
      { s with control := .running { frame with i := safariLoop (frame.i+1) (frame.lines.drop (frame.i+1)) } }
    else if equals line .Else || equals line .EndIf then { s with control := .running { frame with i := frame.i+1 } }
    else { s with control := .running { frame with i := frame.i+1, result := frame.result ++ [line] } }

-- A nested call has settled; its caller goes on or throws in turn.
def resume (s : State) (result : Except Thrown (List Text)) (caller : Caller) (callers : List Caller) : State :=
  { s with
    callers := callers
    control :=
      match result with
      | .ok lines => .running { caller.frame with result := caller.frame.result ++ lines }
      | .error thrown => if caller.catches then .running caller.frame else .returning (.error thrown) }

def step (s : State) : Option State :=
  match s.control with
  | .calling source depth => some (downloadInternal d maxIncludeDepth s source depth)
  | .running frame => some (iterate d s frame)
  | .returning result =>
    match s.callers with
    | [] => none
    | caller :: callers => some (resume s result caller callers)

def start (source : Text) : State := ⟨[],[],.calling source 0,[]⟩

def runFor : Nat → State → State
  | 0,s => s
  | n+1,s =>
    match step d maxIncludeDepth s with
    | none => s
    | some after => runFor n after

-- The call that was started has settled.
def State.settled (s : State) (result : Except Thrown (List Text)) : Prop := s.control = .returning result ∧ s.callers = []

end Steps

def Frame.to (frame : Frame) (i : Nat) : Frame := { frame with i := i }

-- Every way one turn of the loop can go.
inductive Turn (d : Downloader) (s : State) (frame : Frame) : State → Prop where
  | ends (past : frame.lines[frame.i]? = none) : Turn d s frame { s with control := .returning (.ok frame.result) }
  | branches (found : frame.lines[frame.i]? = some line) (opens : starts line .If = true)
      (chosen : lines = if d.evaluateCondition (conditionOf line) then (parseConditionalBlock frame.lines frame.i).ifLines
        else (parseConditionalBlock frame.lines frame.i).elseLines) :
      Turn d s frame (nested s (frame.to (findEndIfIndex frame.lines frame.i+1)) lines)
  | passes (found : frame.lines[frame.i]? = some line) (opens : starts line .If = true)
      (denied : d.evaluateCondition (conditionOf line) = false) (empty : (parseConditionalBlock frame.lines frame.i).elseLines = []) :
      Turn d s frame { s with control := .running (frame.to (findEndIfIndex frame.lines frame.i+1)) }
  | throws (found : frame.lines[frame.i]? = some line) (plain : starts line .If = false) (asks : starts line .Include = true)
      (resolved : d.resolveIncludePath (includePathOf line) frame.basePath = .error thrown) :
      Turn d s frame { s with control := .returning (.error thrown) }
  | includes (found : frame.lines[frame.i]? = some line) (plain : starts line .If = false) (asks : starts line .Include = true)
      (resolved : d.resolveIncludePath (includePathOf line) frame.basePath = .ok resolvedPath) :
      Turn d s frame
        { s with control := .calling resolvedPath (frame.depth+1), callers := ⟨frame.to (frame.i+1),true⟩ :: s.callers }
  | skips (found : frame.lines[frame.i]? = some line) (plain : starts line .If = false) (other : starts line .Include = false)
      (safari : starts line .Safari = true) :
      Turn d s frame { s with control := .running (frame.to (safariLoop (frame.i+1) (frame.lines.drop (frame.i+1)))) }
  | drops (found : frame.lines[frame.i]? = some line) (plain : starts line .If = false) (other : starts line .Include = false)
      (third : starts line .Safari = false) (stray : (equals line .Else || equals line .EndIf) = true) :
      Turn d s frame { s with control := .running (frame.to (frame.i+1)) }
  | keeps (found : frame.lines[frame.i]? = some line) (plain : starts line .If = false) (other : starts line .Include = false)
      (third : starts line .Safari = false) (regular : (equals line .Else || equals line .EndIf) = false) :
      Turn d s frame { s with control := .running { frame with i := frame.i+1, result := frame.result ++ [line] } }

theorem iterate_turn (d : Downloader) (s : State) (frame : Frame) : Turn d s frame (iterate d s frame) := by
  unfold iterate
  cases found : frame.lines[frame.i]? with
  | none => exact .ends found
  | some line =>
    dsimp only
    split
    · next opens =>
      split
      · next holds => exact .branches found opens (by rw [if_pos holds])
      · next fails =>
        split
        · exact .branches found opens (by rw [if_neg fails])
        · next empty => exact .passes found opens (by simpa using fails) (by simpa using empty)
    · next plain =>
      have plain : starts line .If = false := by simpa using plain
      split
      · next asks =>
        cases resolved : d.resolveIncludePath (includePathOf line) frame.basePath with
        | error thrown => exact .throws found plain asks resolved
        | ok resolvedPath => exact .includes found plain asks resolved
      · next other =>
        have other : starts line .Include = false := by simpa using other
        split
        · next safari => exact .skips found plain other safari
        · next third =>
          have third : starts line .Safari = false := by simpa using third
          split
          · next stray => exact .drops found plain other third stray
          · next regular => exact .keeps found plain other third (by simpa using regular)

section Blocks
variable (weight : Text → Nat)

def load (lines : List Text) : Nat := (lines.map weight).sum

@[simp] theorem load_nil : load weight [] = 0 := rfl
@[simp] theorem load_cons (line : Text) (rest : List Text) : load weight (line :: rest) = weight line+load weight rest := rfl
@[simp] theorem load_append (first second : List Text) : load weight (first ++ second) = load weight first+load weight second := by
  simp [load]

theorem load_push (block : ConditionalBlock) (inElse : Bool) (line : Text) :
    load weight (block.push inElse line).ifLines+load weight (block.push inElse line).elseLines =
      load weight block.ifLines+load weight block.elseLines+weight line := by
  cases inElse with
  | false => simp [ConditionalBlock.push]; omega
  | true => simp [ConditionalBlock.push]; omega

-- The block parser reads a stretch of lines, keeps some of them in one of the
-- branches each, and leaves with the index after the stretch.
theorem parse_reads (depth : Nat) (inElse : Bool) (i : Nat) (block : ConditionalBlock) (lines : List Text) :
    ∃ read unread, lines = read ++ unread ∧ (parseLoop depth inElse i block lines).2 = i+read.length ∧
      load weight (parseLoop depth inElse i block lines).1.ifLines+load weight (parseLoop depth inElse i block lines).1.elseLines ≤
        load weight block.ifLines+load weight block.elseLines+load weight read := by
  induction lines generalizing depth inElse i block with
  | nil => exact ⟨[],[],rfl,by cases depth <;> rfl,by cases depth <;> exact Nat.le_refl _⟩
  | cons line rest ih =>
    have goes (depth : Nat) (inElse : Bool) (next : ConditionalBlock)
        (more : load weight next.ifLines+load weight next.elseLines ≤ load weight block.ifLines+load weight block.elseLines+weight line) :
        ∃ read unread, line :: rest = read ++ unread ∧ (parseLoop depth inElse (i+1) next rest).2 = i+read.length ∧
          load weight (parseLoop depth inElse (i+1) next rest).1.ifLines+load weight (parseLoop depth inElse (i+1) next rest).1.elseLines ≤
            load weight block.ifLines+load weight block.elseLines+load weight read := by
      obtain ⟨read,unread,rfl,index,bound⟩ := ih depth inElse (i+1) next
      refine ⟨line :: read,unread,rfl,?_,?_⟩
      · rw [index,List.length_cons]
        omega
      · rw [load_cons]
        omega
    have pushed := load_push weight block inElse line
    cases depth with
    | zero => exact ⟨[],line :: rest,rfl,rfl,Nat.le_refl _⟩
    | succ depth =>
      unfold parseLoop
      split
      · exact goes _ _ _ pushed.le
      · split
        · split
          · exact goes _ _ _ pushed.le
          · exact goes _ _ _ (Nat.le_add_right _ _)
        · split
          · exact goes _ _ _ (Nat.le_add_right _ _)
          · exact goes _ _ _ pushed.le

-- From the !#if at index i, the lines of its branches and those after its block
-- are among the lines after it.
theorem block_load (lines : List Text) (i : Nat) (inside : i < lines.length) :
    load weight (parseConditionalBlock lines i).ifLines+load weight (parseConditionalBlock lines i).elseLines+
      load weight (lines.drop (findEndIfIndex lines i+1)) ≤ load weight (lines.drop (i+1)) := by
  obtain ⟨read,unread,whole,index,bound⟩ :=
    parse_reads weight 1 false (i+1) ⟨conditionOf (lines.getD i []),[],[]⟩ (lines.drop (i+1))
  have ends : findEndIfIndex lines i+1 = i+1+read.length := by
    rw [← same_span inside]
    exact index
  have after : lines.drop (findEndIfIndex lines i+1) = unread := by
    rw [ends,← List.drop_drop,whole,List.drop_left]
  rw [after,whole,load_append]
  simp only [load_nil,Nat.zero_add] at bound
  exact Nat.add_le_add_right bound _

theorem safari_reads (i : Nat) (lines : List Text) :
    ∃ read, lines = read ++ skipSafari lines ∧ safariLoop i lines = i+read.length := by
  induction lines generalizing i with
  | nil => exact ⟨[],rfl,rfl⟩
  | cons line rest ih =>
    unfold safariLoop skipSafari
    split
    · exact ⟨[line],rfl,rfl⟩
    · obtain ⟨read,whole,index⟩ := ih (i+1)
      refine ⟨line :: read,congrArg (line :: ·) whole,?_⟩
      rw [index,List.length_cons]
      omega

theorem safari_drop (lines : List Text) (i : Nat) :
    lines.drop (safariLoop i (lines.drop i)) = skipSafari (lines.drop i) := by
  obtain ⟨read,whole,index⟩ := safari_reads i (lines.drop i)
  rw [index,← List.drop_drop]
  conv_lhs => rw [whole]
  rw [List.drop_left]

theorem safari_load (lines : List Text) : load weight (skipSafari lines) ≤ load weight lines := by
  obtain ⟨read,whole,-⟩ := safari_reads 0 lines
  conv_rhs => rw [whole]
  rw [load_append]
  exact Nat.le_add_left _ _

end Blocks

-- How many steps are left at most, whatever visitedUrls holds.
section Bounded
variable (d : Downloader) (maxIncludeDepth : ℚ)

def lineSteps (nested : Text → Nat) (basePath line : Text) : Nat :=
  if starts line .Include then
    match d.resolveIncludePath (includePathOf line) basePath with
    | .error _ => 3
    | .ok resolvedPath => nested resolvedPath+3
  else 3

-- room counts the depths from the call's own up to the limit.
def stepsWithin : Nat → Text → Nat
  | 0,_ => 1
  | room+1,source =>
    match d.read source with
    | .error _ => 1
    | .ok content => 2+load (lineSteps d (stepsWithin room) source) (documentLines content)

def roomAt (depth : Nat) : Nat := turns maxIncludeDepth-depth

def Frame.weight (frame : Frame) : Text → Nat := lineSteps d (stepsWithin d (roomAt maxIncludeDepth (frame.depth+1))) frame.basePath

def Frame.steps (frame : Frame) : Nat := 1+load (frame.weight d maxIncludeDepth) (frame.lines.drop frame.i)

def Control.steps : Control → Nat
  | .calling source depth => stepsWithin d (roomAt maxIncludeDepth depth) source
  | .running frame => frame.steps d maxIncludeDepth
  | .returning _ => 0

def callerSteps (callers : List Caller) : Nat := (callers.map fun caller => 1+caller.frame.steps d maxIncludeDepth).sum

def State.steps (s : State) : Nat := s.control.steps d maxIncludeDepth+callerSteps d maxIncludeDepth s.callers

variable {d maxIncludeDepth}

theorem stepsWithin_pos (room : Nat) (source : Text) : 0 < stepsWithin d room source := by
  cases room with
  | zero => exact Nat.one_pos
  | succ room =>
    unfold stepsWithin
    split
    · exact Nat.one_pos
    · omega

theorem frame_pos (frame : Frame) : 0 < frame.steps d maxIncludeDepth := by
  rw [Frame.steps]
  exact Nat.lt_of_lt_of_le Nat.one_pos (Nat.le_add_right _ _)

theorem line_pos (nested : Text → Nat) (basePath line : Text) : 3 ≤ lineSteps d nested basePath line := by
  unfold lineSteps
  split
  · split
    · exact Nat.le_refl _
    · exact Nat.le_add_left _ _
  · exact Nat.le_refl _

theorem room_within {depth : Nat} (within : (depth : ℚ) ≤ maxIncludeDepth) : roomAt maxIncludeDepth depth = roomAt maxIncludeDepth (depth+1)+1 := by
  have more := lt_turns.mpr within
  unfold roomAt
  omega

theorem callerSteps_cons (caller : Caller) (callers : List Caller) : callerSteps d maxIncludeDepth (caller :: callers) =
    1+caller.frame.steps d maxIncludeDepth+callerSteps d maxIncludeDepth callers := rfl

theorem internal_shortens (s : State) (source : Text) (depth : Nat) (calling : s.control = .calling source depth) :
    (downloadInternal d maxIncludeDepth s source depth).steps d maxIncludeDepth < s.steps d maxIncludeDepth := by
  have own : s.steps d maxIncludeDepth = stepsWithin d (roomAt maxIncludeDepth depth) source+callerSteps d maxIncludeDepth s.callers := by
    rw [State.steps,calling]
    rfl
  have some_ : 0 < stepsWithin d (roomAt maxIncludeDepth depth) source := stepsWithin_pos _ source
  rw [own]
  unfold downloadInternal
  split
  · change 0+callerSteps d maxIncludeDepth s.callers < _
    omega
  · split
    · change 0+callerSteps d maxIncludeDepth s.callers < _
      omega
    · next deep =>
      have room := room_within (not_lt.mp deep)
      cases found : d.read source with
      | error thrown =>
        change 0+callerSteps d maxIncludeDepth s.callers < _
        omega
      | ok content =>
        change 1+load (lineSteps d (stepsWithin d (roomAt maxIncludeDepth (depth+1))) source) (documentLines content)+
          callerSteps d maxIncludeDepth s.callers < _
        rw [room,stepsWithin,found]
        dsimp only
        omega

theorem drop_found {lines : List Text} {i : Nat} {line : Text} (found : lines[i]? = some line) :
    lines.drop i = line :: lines.drop (i+1) := by
  obtain ⟨inside,rfl⟩ := List.getElem?_eq_some_iff.mp found
  exact (List.cons_getElem_drop_succ).symm

theorem frame_found {frame : Frame} {line : Text} (found : frame.lines[frame.i]? = some line) : frame.steps d maxIncludeDepth =
    1+(frame.weight d maxIncludeDepth line+load (frame.weight d maxIncludeDepth) (frame.lines.drop (frame.i+1))) := by
  rw [Frame.steps,drop_found found,load_cons]

theorem turn_shortens (turned : Turn d s frame after) (running : s.control = .running frame) :
    after.steps d maxIncludeDepth < s.steps d maxIncludeDepth := by
  have own : s.steps d maxIncludeDepth = frame.steps d maxIncludeDepth+callerSteps d maxIncludeDepth s.callers := by
    rw [State.steps,running]
    rfl
  have some_ : 0 < frame.steps d maxIncludeDepth := frame_pos frame
  have light (line : Text) : 3 ≤ frame.weight d maxIncludeDepth line := line_pos _ _ line
  rw [own]
  cases turned with
  | ends past =>
    change 0+callerSteps d maxIncludeDepth s.callers < _
    omega
  | @branches line lines found opens chosen =>
    have inside := (List.getElem?_eq_some_iff.mp found).1
    have block := block_load (frame.weight d maxIncludeDepth) frame.lines frame.i inside
    have part : load (frame.weight d maxIncludeDepth) lines ≤
        load (frame.weight d maxIncludeDepth) (parseConditionalBlock frame.lines frame.i).ifLines+
          load (frame.weight d maxIncludeDepth) (parseConditionalBlock frame.lines frame.i).elseLines := by
      rw [chosen]
      split
      · exact Nat.le_add_right _ _
      · exact Nat.le_add_left _ _
    have heavy := light line
    rw [frame_found found]
    change 1+load (frame.weight d maxIncludeDepth) lines+
      (1+(1+load (frame.weight d maxIncludeDepth) (frame.lines.drop (findEndIfIndex frame.lines frame.i+1)))+
        callerSteps d maxIncludeDepth s.callers) < _
    omega
  | @passes line found opens denied empty =>
    have inside := (List.getElem?_eq_some_iff.mp found).1
    have block := block_load (frame.weight d maxIncludeDepth) frame.lines frame.i inside
    have heavy := light line
    rw [frame_found found]
    change 1+load (frame.weight d maxIncludeDepth) (frame.lines.drop (findEndIfIndex frame.lines frame.i+1))+
      callerSteps d maxIncludeDepth s.callers < _
    omega
  | throws found plain asks resolved =>
    change 0+callerSteps d maxIncludeDepth s.callers < _
    omega
  | @includes line resolvedPath found plain asks resolved =>
    have whole : frame.weight d maxIncludeDepth line = stepsWithin d (roomAt maxIncludeDepth (frame.depth+1)) resolvedPath+3 := by
      rw [Frame.weight,lineSteps,if_pos asks,resolved]
    rw [frame_found found,whole]
    change stepsWithin d (roomAt maxIncludeDepth (frame.depth+1)) resolvedPath+
      (1+(1+load (frame.weight d maxIncludeDepth) (frame.lines.drop (frame.i+1)))+callerSteps d maxIncludeDepth s.callers) < _
    omega
  | @skips line found plain other safari =>
    have skipped := safari_load (frame.weight d maxIncludeDepth) (frame.lines.drop (frame.i+1))
    have heavy := light line
    rw [← safari_drop] at skipped
    rw [frame_found found]
    change 1+load (frame.weight d maxIncludeDepth) (frame.lines.drop (safariLoop (frame.i+1) (frame.lines.drop (frame.i+1))))+
      callerSteps d maxIncludeDepth s.callers < _
    omega
  | @drops line found plain other third stray =>
    have heavy := light line
    rw [frame_found found]
    change 1+load (frame.weight d maxIncludeDepth) (frame.lines.drop (frame.i+1))+callerSteps d maxIncludeDepth s.callers < _
    omega
  | @keeps line found plain other third regular =>
    have heavy := light line
    rw [frame_found found]
    change 1+load (frame.weight d maxIncludeDepth) (frame.lines.drop (frame.i+1))+callerSteps d maxIncludeDepth s.callers < _
    omega

theorem resume_shortens (s : State) (result : Except Thrown (List Text)) (caller : Caller) (callers : List Caller)
    (returning : s.control = .returning result) (awaited : s.callers = caller :: callers) :
    (resume s result caller callers).steps d maxIncludeDepth < s.steps d maxIncludeDepth := by
  have own : s.steps d maxIncludeDepth = 0+callerSteps d maxIncludeDepth (caller :: callers) := by
    rw [State.steps,returning,awaited]
    rfl
  rw [own,callerSteps_cons]
  cases result with
  | ok lines =>
    change caller.frame.steps d maxIncludeDepth+callerSteps d maxIncludeDepth callers < _
    omega
  | error thrown =>
    cases catches : caller.catches with
    | true =>
      have after : (resume s (.error thrown) caller callers).steps d maxIncludeDepth =
          caller.frame.steps d maxIncludeDepth+callerSteps d maxIncludeDepth callers := by
        simp [State.steps,resume,catches,Control.steps]
      omega
    | false =>
      have after : (resume s (.error thrown) caller callers).steps d maxIncludeDepth = callerSteps d maxIncludeDepth callers := by
        simp [State.steps,resume,catches,Control.steps]
      omega

theorem step_shortens (stepped : step d maxIncludeDepth s = some after) : after.steps d maxIncludeDepth < s.steps d maxIncludeDepth := by
  unfold step at stepped
  cases control : s.control with
  | calling source depth =>
    rw [control] at stepped
    exact Option.some.inj stepped ▸ internal_shortens s source depth control
  | running frame =>
    rw [control] at stepped
    exact Option.some.inj stepped ▸ turn_shortens (iterate_turn d s frame) control
  | returning result =>
    rw [control] at stepped
    dsimp only at stepped
    split at stepped
    · cases stepped
    · next caller callers awaited => exact Option.some.inj stepped ▸ resume_shortens s result caller callers control awaited

-- Only a settled call takes no step.
theorem step_none : step d maxIncludeDepth s = none ↔ ∃ result, s.settled result := by
  unfold step State.settled
  cases s.control with
  | calling source depth => simp
  | running frame => simp
  | returning result =>
    cases s.callers with
    | nil => simp
    | cons caller callers => simp

end Bounded

section Fetching
variable {d : Downloader} {maxIncludeDepth : ℚ}

-- What was fetched was marked as visited before, once.
structure Fetched (s : State) : Prop where
  once : s.fetched.Nodup
  marked : ∀ source ∈ s.fetched, source ∈ s.visitedUrls

theorem internal_fetched (fetched : Fetched s) (source : Text) (depth : Nat) :
    Fetched (downloadInternal d maxIncludeDepth s source depth) := by
  unfold downloadInternal
  split
  · exact ⟨fetched.once,fetched.marked⟩
  · next fresh =>
    split
    · exact ⟨fetched.once,fetched.marked⟩
    · refine ⟨?_,?_⟩
      · refine List.nodup_append.mpr ⟨fetched.once,List.nodup_singleton source,?_⟩
        intro old member new single same
        obtain rfl := List.mem_singleton.mp single
        exact fresh (same ▸ fetched.marked old member)
      · intro asked member
        rcases List.mem_append.mp member with old | new
        · exact List.mem_cons_of_mem source (fetched.marked asked old)
        · rw [List.mem_singleton.mp new]
          exact List.mem_cons_self

theorem turn_fetched (turned : Turn d s frame after) : after.fetched = s.fetched ∧ after.visitedUrls = s.visitedUrls := by
  cases turned with
  | ends => exact ⟨rfl,rfl⟩
  | branches => exact ⟨rfl,rfl⟩
  | passes => exact ⟨rfl,rfl⟩
  | throws => exact ⟨rfl,rfl⟩
  | includes => exact ⟨rfl,rfl⟩
  | skips => exact ⟨rfl,rfl⟩
  | drops => exact ⟨rfl,rfl⟩
  | keeps => exact ⟨rfl,rfl⟩

theorem step_fetched (fetched : Fetched s) (stepped : step d maxIncludeDepth s = some after) : Fetched after := by
  unfold step at stepped
  split at stepped
  · exact Option.some.inj stepped ▸ internal_fetched fetched _ _
  · next frame control =>
    obtain rfl := Option.some.inj stepped
    obtain ⟨same,kept⟩ := turn_fetched (iterate_turn d s frame)
    exact ⟨same ▸ fetched.once,fun source member => kept ▸ fetched.marked source (same ▸ member)⟩
  · split at stepped
    · cases stepped
    · exact Option.some.inj stepped ▸ ⟨fetched.once,fetched.marked⟩

theorem run_fetched (fetched : Fetched s) (n : Nat) : Fetched (runFor d maxIncludeDepth n s) := by
  induction n generalizing s with
  | zero => exact fetched
  | succ n ih =>
    unfold runFor
    split
    · exact fetched
    · next after stepped => exact ih (step_fetched fetched stepped)

end Fetching

-- The loop at an index works on the block as a loop that starts there.
section Shifts

theorem parse_shift (depth : Nat) (inElse : Bool) (i j : Nat) (block : ConditionalBlock) (lines : List Text) :
    (parseLoop depth inElse i block lines).1 = (parseLoop depth inElse j block lines).1 ∧
      (parseLoop depth inElse i block lines).2+j = (parseLoop depth inElse j block lines).2+i := by
  induction lines generalizing depth inElse i j block with
  | nil => cases depth <;> exact ⟨rfl,Nat.add_comm i j⟩
  | cons line rest ih =>
    have goes (depth : Nat) (inElse : Bool) (next : ConditionalBlock) :
        (parseLoop depth inElse (i+1) next rest).1 = (parseLoop depth inElse (j+1) next rest).1 ∧
          (parseLoop depth inElse (i+1) next rest).2+j = (parseLoop depth inElse (j+1) next rest).2+i := by
      obtain ⟨same,index⟩ := ih depth inElse (i+1) (j+1) next
      exact ⟨same,by omega⟩
    cases depth with
    | zero => exact ⟨rfl,Nat.add_comm i j⟩
    | succ depth =>
      unfold parseLoop
      split
      · exact goes _ _ _
      · split
        · exact goes _ _ _
        · split
          · exact goes _ _ _
          · exact goes _ _ _

theorem block_shift {lines : List Text} {i : Nat} {line : Text} (found : lines[i]? = some line) :
    parseConditionalBlock lines i = parseConditionalBlock (line :: lines.drop (i+1)) 0 ∧
      lines.drop (findEndIfIndex lines i+1) =
        (line :: lines.drop (i+1)).drop (findEndIfIndex (line :: lines.drop (i+1)) 0+1) := by
  have inside := (List.getElem?_eq_some_iff.mp found).1
  have whole := drop_found found
  have condition : lines.getD i [] = line := by rw [List.getD_eq_getElem?_getD,found]; rfl
  obtain ⟨same,index⟩ := parse_shift 1 false (i+1) 1 ⟨conditionOf line,[],[]⟩ (lines.drop (i+1))
  have one : parseFrom lines i = parseLoop 1 false (i+1) ⟨conditionOf line,[],[]⟩ (lines.drop (i+1)) := by
    rw [parseFrom,condition]
  have two : parseFrom (line :: lines.drop (i+1)) 0 = parseLoop 1 false 1 ⟨conditionOf line,[],[]⟩ (lines.drop (i+1)) := rfl
  refine ⟨by rw [parseConditionalBlock,parseConditionalBlock,one,two,same],?_⟩
  have first := same_span inside
  have second : (parseFrom (line :: lines.drop (i+1)) 0).2 = findEndIfIndex (line :: lines.drop (i+1)) 0+1 :=
    same_span (Nat.succ_pos _)
  rw [one] at first
  rw [two] at second
  rw [← whole,List.drop_drop]
  rw [← whole] at second
  congr 1
  omega

end Shifts

-- What a state comes to when it is run to the end, by the recursive reading of
-- the same code.
section Outcomes
variable (d : Downloader) (maxIncludeDepth : ℚ)

def Frame.environment (frame : Frame) : Environment (List Text) :=
  d.environment (roomAt maxIncludeDepth (frame.depth+1)) frame.basePath

def Frame.todo (frame : Frame) : List Piece := pieces d.evaluateCondition (frame.lines.drop frame.i)

def Frame.outcome (frame : Frame) (visitedUrls : List Text) : Outcome (List Text) :=
  Outcome.andThen (.ok frame.result,visitedUrls) (runPieces (frame.environment d maxIncludeDepth) (frame.todo d))

def goOn : List Caller → Outcome (List Text) → Outcome (List Text)
  | [],outcome => outcome
  | caller :: callers,(.ok lines,visitedUrls) =>
    goOn callers (Frame.outcome d maxIncludeDepth { caller.frame with result := caller.frame.result ++ lines } visitedUrls)
  | caller :: callers,(.error thrown,visitedUrls) =>
    goOn callers (if caller.catches then caller.frame.outcome d maxIncludeDepth visitedUrls else (.error thrown,visitedUrls))

def State.outcome (s : State) : Outcome (List Text) :=
  match s.control with
  | .calling source depth =>
    goOn d maxIncludeDepth s.callers (Download.downloadInternal d (roomAt maxIncludeDepth depth) source s.visitedUrls)
  | .running frame => goOn d maxIncludeDepth s.callers (frame.outcome d maxIncludeDepth s.visitedUrls)
  | .returning result => goOn d maxIncludeDepth s.callers (result,s.visitedUrls)

variable {d maxIncludeDepth}

theorem internal_outcome (s : State) (source : Text) (depth : Nat) : (downloadInternal d maxIncludeDepth s source depth).outcome d maxIncludeDepth =
    goOn d maxIncludeDepth s.callers (Download.downloadInternal d (roomAt maxIncludeDepth depth) source s.visitedUrls) := by
  unfold downloadInternal
  split
  · next seen =>
    rw [download_seen d _ seen]
    rfl
  · next fresh =>
    split
    · next deep =>
      have none : roomAt maxIncludeDepth depth = 0 := by
        have past : ¬depth < turns maxIncludeDepth := fun within => absurd (lt_turns.mp within) (not_le.mpr deep)
        unfold roomAt
        omega
      rw [none]
      rfl
    · next deep =>
      rw [room_within (not_lt.mp deep)]
      cases found : d.read source with
      | error thrown =>
        rw [download_fails d _ fresh found]
        rfl
      | ok content =>
        rw [download_reads d _ fresh found]
        exact congrArg (goOn d maxIncludeDepth s.callers) (nothing_andThen (source :: s.visitedUrls) _)

theorem todo_found {frame : Frame} {line : Text} (found : frame.lines[frame.i]? = some line) :
    frame.todo d = pieces d.evaluateCondition (line :: frame.lines.drop (frame.i+1)) := by
  rw [Frame.todo,drop_found found]

-- A block's branch, its lines pushed by the caller, is the front of what the
-- caller has to go through.
theorem goOn_block (frame : Frame) (callers : List Caller) (front : List Piece) (visitedUrls : List Text) :
    goOn d maxIncludeDepth (⟨frame,false⟩ :: callers)
        (Outcome.andThen (.ok [],visitedUrls) (runPieces (frame.environment d maxIncludeDepth) front)) =
      goOn d maxIncludeDepth callers (Outcome.andThen (.ok frame.result,visitedUrls)
        (runPieces (frame.environment d maxIncludeDepth) (front ++ frame.todo d))) := by
  have split : runPieces (frame.environment d maxIncludeDepth) (front ++ frame.todo d) = fun s =>
      (runPieces (frame.environment d maxIncludeDepth) front s).andThen (runPieces (frame.environment d maxIncludeDepth) (frame.todo d)) :=
    funext fun s => runPieces_append _ front (frame.todo d) s
  rw [split,← andThen_assoc,nothing_andThen]
  rcases ran : runPieces (frame.environment d maxIncludeDepth) front visitedUrls with ⟨thrown | lines,after⟩
  · simp [goOn,Outcome.andThen,ran]
  · have pushed : Outcome.andThen (.ok frame.result,visitedUrls) (runPieces (frame.environment d maxIncludeDepth) front) =
        (.ok (frame.result ++ lines),after) := by simp [Outcome.andThen,ran]
    rw [pushed]
    rfl

theorem turn_outcome (turned : Turn d s frame after) : after.outcome d maxIncludeDepth =
    goOn d maxIncludeDepth s.callers (frame.outcome d maxIncludeDepth s.visitedUrls) := by
  cases turned with
  | ends past =>
    have none : frame.todo d = [] := by
      rw [Frame.todo,List.drop_eq_nil_of_le (List.getElem?_eq_none_iff.mp past)]
      rfl
    rw [Frame.outcome,none,last_outcome]
    rfl
  | @branches line lines found opens chosen =>
    obtain ⟨block,rest⟩ := block_shift found
    have parts : frame.todo d = pieces d.evaluateCondition lines ++ (frame.to (findEndIfIndex frame.lines frame.i+1)).todo d := by
      rw [todo_found found,pieces_cons,if_pos opens,← block,← rest,chosen]
      rfl
    rw [Frame.outcome,parts]
    exact goOn_block (frame.to (findEndIfIndex frame.lines frame.i+1)) s.callers (pieces d.evaluateCondition lines) s.visitedUrls
  | @passes line found opens denied empty =>
    obtain ⟨block,rest⟩ := block_shift found
    have parts : frame.todo d = (frame.to (findEndIfIndex frame.lines frame.i+1)).todo d := by
      rw [todo_found found,pieces_cons,if_pos opens,← block,← rest,denied,empty]
      rfl
    rw [Frame.outcome,parts]
    rfl
  | @throws line thrown found plain asks resolved =>
    have front : frame.todo d = .inclusion (includePathOf line) :: (frame.to (frame.i+1)).todo d := by
      rw [todo_found found,pieces_cons,if_neg (by simp [plain]),if_pos asks]
      rfl
    rw [Frame.outcome,front,throws_outcome _ _ _ _ resolved]
    rfl
  | @includes line resolvedPath found plain asks resolved =>
    have front : frame.todo d = .inclusion (includePathOf line) :: (frame.to (frame.i+1)).todo d := by
      rw [todo_found found,pieces_cons,if_neg (by simp [plain]),if_pos asks]
      rfl
    rw [Frame.outcome,front,included_outcome _ _ _ _ resolved]
    unfold State.outcome
    dsimp only
    have same : (frame.environment d maxIncludeDepth).downloadInternal resolvedPath s.visitedUrls =
        Download.downloadInternal d (roomAt maxIncludeDepth (frame.depth+1)) resolvedPath s.visitedUrls := rfl
    rw [same]
    rcases Download.downloadInternal d (roomAt maxIncludeDepth (frame.depth+1)) resolvedPath s.visitedUrls with ⟨thrown | lines,after⟩
    · rw [goOn,if_pos rfl]
      simp only [Except.toOption,Option.getD_none,List.append_nil]
      rfl
    · rfl
  | @skips line found plain other safari =>
    have parts : frame.todo d = (frame.to (safariLoop (frame.i+1) (frame.lines.drop (frame.i+1)))).todo d := by
      rw [todo_found found,pieces_cons,if_neg (by simp [plain]),if_neg (by simp [other]),if_pos safari,← safari_drop]
      rfl
    rw [Frame.outcome,parts]
    rfl
  | @drops line found plain other third stray =>
    have parts : frame.todo d = (frame.to (frame.i+1)).todo d := by
      rw [todo_found found,pieces_cons,if_neg (by simp [plain]),if_neg (by simp [other]),if_neg (by simp [third]),if_pos stray]
      rfl
    rw [Frame.outcome,parts]
    rfl
  | @keeps line found plain other third regular =>
    have front : frame.todo d = .line line :: (frame.to (frame.i+1)).todo d := by
      rw [todo_found found,pieces_cons,if_neg (by simp [plain]),if_neg (by simp [other]),if_neg (by simp [third]),
        if_neg (by simp [regular])]
      rfl
    rw [Frame.outcome,front,line_outcome]
    rfl

theorem step_outcome (stepped : step d maxIncludeDepth s = some after) : after.outcome d maxIncludeDepth = s.outcome d maxIncludeDepth := by
  unfold step at stepped
  cases control : s.control with
  | calling source depth =>
    rw [control] at stepped
    obtain rfl := Option.some.inj stepped
    rw [internal_outcome,State.outcome,control]
  | running frame =>
    rw [control] at stepped
    obtain rfl := Option.some.inj stepped
    rw [turn_outcome (iterate_turn d s frame),State.outcome,control]
  | returning result =>
    rw [control] at stepped
    dsimp only at stepped
    split at stepped
    · cases stepped
    · next caller callers awaited =>
      obtain rfl := Option.some.inj stepped
      rw [State.outcome,State.outcome,control,awaited]
      cases result with
      | ok lines => rfl
      | error thrown =>
        cases catches : caller.catches with
        | true => simp [resume,goOn,catches]
        | false => simp [resume,goOn,catches]

theorem run_outcome (n : Nat) (s : State) : (runFor d maxIncludeDepth n s).outcome d maxIncludeDepth = s.outcome d maxIncludeDepth := by
  induction n generalizing s with
  | zero => rfl
  | succ n ih =>
    unfold runFor
    split
    · rfl
    · next after stepped => exact (ih after).trans (step_outcome stepped)

-- With as many steps as are left at most, the call has settled.
theorem run_settles (enough : s.steps d maxIncludeDepth ≤ n) : ∃ result, (runFor d maxIncludeDepth n s).settled result := by
  induction n generalizing s with
  | zero =>
    cases stepped : step d maxIncludeDepth s with
    | none => exact step_none.mp stepped
    | some after => exact absurd (step_shortens stepped) (by omega)
  | succ n ih =>
    unfold runFor
    cases stepped : step d maxIncludeDepth s with
    | none => exact step_none.mp stepped
    | some after =>
      have shorter := step_shortens stepped
      exact ih (by omega)

end Outcomes

theorem settled_outcome {s : State} (d : Downloader) (maxIncludeDepth : ℚ) (settled : s.settled result) :
    s.outcome d maxIncludeDepth = (result,s.visitedUrls) := by
  rw [State.outcome,settled.1,settled.2]
  rfl

-- How often a download steps at most.
def stepBound (f : FilterDownloader) (maxIncludeDepth : ℚ) (source : Text) : Nat :=
  stepsWithin f.downloader (turns maxIncludeDepth) source

-- A download comes to an end within a bound that its documents give, with what
-- the recursive model says, and no source is fetched twice on the way.
theorem download_terminates (f : FilterDownloader) (maxIncludeDepth : ℚ) (source : Text) :
    (∃ result, (runFor f.downloader maxIncludeDepth (stepBound f maxIncludeDepth source) (start source)).settled result ∧
      (result,(runFor f.downloader maxIncludeDepth (stepBound f maxIncludeDepth source) (start source)).visitedUrls) =
        Download.downloadInternal f.downloader (turns maxIncludeDepth) source []) ∧
    ∀ n, (runFor f.downloader maxIncludeDepth n (start source)).fetched.Nodup := by
  constructor
  · have enough : (start source).steps f.downloader maxIncludeDepth ≤ stepBound f maxIncludeDepth source := Nat.le_refl _
    obtain ⟨result,settled⟩ := run_settles enough
    refine ⟨result,settled,?_⟩
    rw [← settled_outcome f.downloader maxIncludeDepth settled,run_outcome]
    rfl
  · intro n
    have nothing : Fetched (start source) := ⟨List.nodup_nil,fun asked none => by cases none⟩
    exact (run_fetched nothing n).once

end AdblockCompiler.DownloadSteps
