import AdblockCompiler.ErrorQueue
import AdblockCompiler.Framing

-- What handleCompileStream writes while it compiles, and how SseService of the
-- frontend reads it.
namespace AdblockCompiler.EventStream
open JsText JsonText Framing
open ErrorQueue (given number)

abbrev Event := Text × Json

def frame (event : Event) : Text := "event: ".toList ++ event.1 ++ "\ndata: ".toList ++ stringify event.2 ++ "\n\n".toList

inductive LogLevel where
  | info | warn | error | debug | trace
  deriving DecidableEq, Repr

def LogLevel.text : LogLevel → Text
  | .info => "info".toList
  | .warn => "warn".toList
  | .error => "error".toList
  | .debug => "debug".toList
  | .trace => "trace".toList

abbrev Fields := List (Text × Json)

-- A field of an object literal behind a spread: it takes the place of the one
-- that is there.
def overwrite (fields : Fields) (name : Text) (value : Json) : Fields :=
  if name ∈ fields.map Prod.fst then fields.map fun field => if field.1 = name then (name,value) else field else fields ++ [(name,value)]

inductive Emitted where
  | log (level : LogLevel) (message : Text)
  | sourceStart (event : Fields)
  | sourceComplete (event : Fields)
  | sourceError (event : Fields) (message : Text)
  | transformationStart (event : Fields)
  | transformationComplete (event : Fields)
  | progress (event : Fields)
  | compilationComplete (event : Fields)

def Emitted.event : Emitted → Event
  | .log level message => ("log".toList,.object [("level".toList,.string level.text),("message".toList,.string message)])
  | .sourceStart event => ("source:start".toList,.object event)
  | .sourceComplete event => ("source:complete".toList,.object event)
  | .sourceError event message => ("source:error".toList,.object (overwrite event "error".toList (.string message)))
  | .transformationStart event => ("transformation:start".toList,.object event)
  | .transformationComplete event => ("transformation:complete".toList,.object event)
  | .progress event => ("progress".toList,.object event)
  | .compilationComplete event => ("compilation:complete".toList,.object event)

structure Diagnostic where
  category : Text
  json : Json

def Diagnostic.event (diagnostic : Diagnostic) : Event :=
  if diagnostic.category = "cache".toList then ("cache".toList,diagnostic.json)
  else if diagnostic.category = "network".toList then ("network".toList,diagnostic.json)
  else if diagnostic.category = "performance".toList then ("metric".toList,diagnostic.json)
  else ("diagnostic".toList,diagnostic.json)

structure PreviousVersion where
  rules : List Text
  ruleCount : Nat
  compiledAt : Text

def PreviousVersion.json (version : PreviousVersion) : Json :=
  .object [("rules".toList,.array (version.rules.map .string)),("ruleCount".toList,number version.ruleCount),
    ("compiledAt".toList,.string version.compiledAt)]

def resultEvent (rules : List Text) (metrics : Option Json) (previous : Option PreviousVersion) : Event :=
  ("result".toList,.object (("rules".toList,.array (rules.map .string)) :: ("ruleCount".toList,number rules.length) ::
    given "metrics" metrics (given "previousVersion" (previous.map PreviousVersion.json) [])))

def errorEvent (message : Text) : Event := ("error".toList,.object [("error".toList,.string message)])

-- How the compilation ends. Behind the last frame of a good one only
-- recordMetric can throw.
inductive Ending where
  | compiled (diagnostics : List Diagnostic) (rules : List Text) (metrics : Option Json) (previous : Option PreviousVersion)
      (unrecorded : Option Text)
  | failed (message : Text)

structure Compilation where
  emitted : List Emitted
  ending : Ending

def Compilation.events (compilation : Compilation) : List Event :=
  compilation.emitted.map Emitted.event ++
    match compilation.ending with
    | .compiled diagnostics rules metrics previous _ => diagnostics.map Diagnostic.event ++ [resultEvent rules metrics previous]
    | .failed message => [errorEvent message]

def Compilation.closing (compilation : Compilation) : List Event :=
  match compilation.ending with
  | .compiled _ _ _ _ unrecorded => ("done".toList,.object []) :: unrecorded.toList.map errorEvent
  | .failed _ => []

def handleCompileStream (compilation : Compilation) : Text := (compilation.events ++ compilation.closing).flatMap frame

structure SseEvent where
  type : Text
  data : Json

section Client
variable (parse : Text → Option Json)

def readLine (read : Text × List Text) (line : Text) : Text × List Text :=
  if startsWith line "event:".toList then (trim (line.drop 6),read.2)
  else if startsWith line "data:".toList then (read.1,read.2 ++ [trim (line.drop 5)])
  else read

def parseSseBlock (block : Text) : Option SseEvent :=
  let (eventType,dataLines) := (block.splitOn '\n').foldl readLine ("message".toList,[])
  if dataLines = [] then none
  else
    let raw := ['\n'].intercalate dataLines
    some ⟨eventType,(parse raw).getD (.object [("raw".toList,.string raw)])⟩

-- The events of an attempt, and whether it is over for the client.
structure Reading where
  events : List SseEvent
  done : Bool

-- A block out of the buffer. Behind the event of type done nothing is read.
def Reading.take (reading : Reading) (block : Text) : Reading :=
  if reading.done then reading
  else
    match parseSseBlock parse block with
    | none => reading
    | some event => if event.type = "done".toList then { reading with done := true } else { reading with events := reading.events ++ [event] }

-- split leaves in the buffer what is behind the last empty line.
def streamFetch (chunks : List Text) : Reading := (chunks.foldl (feed '\n' (Reading.take parse)) (⟨[],false⟩,[])).1

inductive SseStatus where
  | idle | connecting | open | error | closed
  deriving DecidableEq, Repr

-- How an attempt goes: the request fails, the stream breaks, or it is closed,
-- behind some chunks of the text. One that still goes on has no answer, or
-- some chunks.
inductive Fate where
  | refused
  | broken (chunks : List Text)
  | closed (chunks : List Text)
  | unanswered
  | going (chunks : List Text)

def Fate.reading : Fate → Reading
  | .refused | .unanswered => ⟨[],false⟩
  | .broken chunks | .going chunks => streamFetch parse chunks
  | .closed chunks => { streamFetch parse chunks with done := true }

def Fate.pending : Fate → Option SseStatus
  | .unanswered => some .connecting
  | .going _ => some .open
  | .refused | .broken _ | .closed _ => none

-- delays is history: after how many milliseconds it was tried again.
structure SseConnection where
  events : List SseEvent
  status : SseStatus
  retryCount : Nat
  delays : List Nat

def MAX_RETRIES : Nat := 3

def wait (retry : Nat) : Nat := min (1000*2^retry) 8000

def SseConnection.read (connection : SseConnection) (retry : Nat) (reading : Reading) : SseConnection :=
  { connection with events := connection.events ++ reading.events, retryCount := retry }

def SseConnection.again (connection : SseConnection) (retry : Nat) : SseConnection :=
  { connection with delays := connection.delays ++ [wait retry] }

-- connect with the attempts as they go. With no more of them it waits for the
-- next: attempt and the handler of a failure have set connecting before.
def attempt (retry : Nat) (connection : SseConnection) : List Fate → SseConnection
  | [] => { connection with status := .connecting }
  | fate :: fates =>
    let reading := fate.reading parse
    let connection := connection.read retry reading
    if reading.done then { connection with status := .closed }
    else
      match fate.pending with
      | some status => { connection with status := status }
      | none =>
        if retry < MAX_RETRIES then attempt (retry+1) (connection.again retry) fates
        else { connection with status := .error }

def connect (fates : List Fate) : SseConnection := attempt parse 0 ⟨[],.idle,0,[]⟩ fates

-- The request is aborted and no timer goes on, so nothing comes behind it.
def SseConnection.close (connection : SseConnection) : SseConnection := { connection with status := .closed }

def connected (fates : List Fate) (left : Bool) : SseConnection :=
  if left then (connect parse fates).close else connect parse fates

end Client

theorem number_inked (digit : isNumberChar c = true) : isSpace c = false := by
  simp only [isNumberChar,Bool.or_eq_true] at digit
  rcases digit with number | mark
  · simp only [Char.isDigit,Bool.and_eq_true,decide_eq_true_eq] at number
    obtain ⟨low,high⟩ := number
    have least : 48 ≤ c.toNat := low
    have most : c.toNat ≤ 57 := high
    simp [isSpace]
    omega
  · have one : c = '+' ∨ c = '-' ∨ c = '.' ∨ c = 'e' := by simpa using mark
    rcases one with rfl | rfl | rfl | rfl <;> rfl

theorem trimmed_enclosed (front : isSpace c = false) (back : isSpace d = false) (text : Text) : Trimmed (c :: (text ++ [d])) :=
  trimmed_ends (by simp [front]) (by rw [← List.cons_append,List.getLast?_concat]; simp [back])

theorem stringify_trimmed (value : Json) : trim (stringify value) = stringify value := by
  refine trim_trimmed ?_
  cases value with
  | null => exact trimmed_ends rfl rfl
  | bool truth => cases truth <;> exact trimmed_ends rfl rfl
  | number value =>
    have inked (c : Char) (member : c ∈ stringify (.number value)) : isSpace c = false :=
      number_inked (List.all_eq_true.mp value.digits c member)
    refine ⟨?_,?_⟩
    · intro c rest same
      exact inked c (same ▸ List.mem_cons_self)
    · intro c rest same
      exact inked c (same ▸ List.mem_append_right _ (List.mem_singleton_self c))
  | string text => exact trimmed_enclosed rfl rfl _
  | array items => exact trimmed_enclosed rfl rfl _
  | object fields => exact trimmed_enclosed rfl rfl _

structure Plain (name : Text) : Prop where
  single : '\n' ∉ name
  trimmed : trim name = name

def typeLine (event : Event) : Text := "event: ".toList ++ event.1

def dataLine (event : Event) : Text := "data: ".toList ++ stringify event.2

def block (event : Event) : Text := ['\n'].intercalate [typeLine event,dataLine event]

theorem line_single {first rest : Text} (start : '\n' ∉ first) (single : '\n' ∉ rest) : '\n' ∉ first ++ rest := fun member =>
  (List.mem_append.mp member).elim start single

theorem typeLine_single (plain : Plain event.1) : '\n' ∉ typeLine event := line_single (by decide) plain.single

theorem dataLine_single (event : Event) : '\n' ∉ dataLine event := line_single (by decide) (stringify_single event.2)

theorem block_lines (event : Event) : block event = typeLine event ++ '\n' :: dataLine event := by
  rw [block,join_cons (List.cons_ne_nil _ _),List.intercalate_singleton]

theorem line_append (one two three four five : Text) :
    one ++ two ++ '\n' :: three ++ four ++ five = one ++ two ++ '\n' :: (three ++ four) ++ five := by
  simp

theorem frame_block (event : Event) : frame event = block event ++ ['\n','\n'] := by
  rw [block_lines]
  unfold frame typeLine dataLine
  have data : "\ndata: ".toList = '\n' :: "data: ".toList := rfl
  have ends : "\n\n".toList = ['\n','\n'] := rfl
  rw [data,ends]
  apply line_append

theorem cut_frames (events : List Event) (plain : ∀ event ∈ events, Plain event.1) :
    cut '\n' (events.flatMap frame) = (events.map block,[]) := by
  induction events with
  | nil => rfl
  | cons event events ih =>
    obtain ⟨first,others⟩ := List.forall_mem_cons.mp plain
    have lines : ∀ line ∈ [typeLine event,dataLine event], line ≠ [] ∧ '\n' ∉ line :=
      List.forall_mem_cons.mpr ⟨⟨List.append_ne_nil_of_left_ne_nil (by decide) _,typeLine_single first⟩,
        List.forall_mem_singleton.mpr ⟨List.append_ne_nil_of_left_ne_nil (by decide) _,dataLine_single event⟩⟩
    have split := cut_block _ (List.cons_ne_nil _ _) lines (events.flatMap frame)
    rw [ih others] at split
    rw [List.flatMap_cons,frame_block,List.append_assoc]
    exact split

section Reading
variable {parse : Text → Option Json}

theorem trim_space (text : Text) : trim (' ' :: text) = trim text := rfl

theorem readLine_type (plain : Plain event.1) (read : Text × List Text) : readLine read (typeLine event) = (event.1,read.2) := by
  have type : startsWith (typeLine event) "event:".toList = true := rfl
  have name : trim ((typeLine event).drop 6) = event.1 := (trim_space event.1).trans plain.trimmed
  rw [readLine,if_pos type,name]

theorem readLine_data (event : Event) (read : Text × List Text) :
    readLine read (dataLine event) = (read.1,read.2 ++ [stringify event.2]) := by
  have other : ¬startsWith (dataLine event) "event:".toList = true := Bool.false_ne_true
  have data : startsWith (dataLine event) "data:".toList = true := rfl
  have value : trim ((dataLine event).drop 5) = stringify event.2 := (trim_space _).trans (stringify_trimmed _)
  rw [readLine,if_neg other,if_pos data,value]

theorem parseSseBlock_block (plain : Plain event.1) (reads : parse (stringify event.2) = some event.2) :
    parseSseBlock parse (block event) = some ⟨event.1,event.2⟩ := by
  have lines : (block event).splitOn '\n' = [typeLine event,dataLine event] := by
    rw [block,splitOn_join (List.cons_ne_nil _ _),List.flatMap_cons,List.flatMap_cons,List.splitOn_eq_singleton (typeLine_single plain),
      List.splitOn_eq_singleton (dataLine_single event)]
    rfl
  have read : [typeLine event,dataLine event].foldl readLine ("message".toList,[]) = (event.1,[stringify event.2]) := by
    rw [List.foldl_cons,List.foldl_cons,readLine_type plain,readLine_data]
    rfl
  rw [parseSseBlock,lines,read]
  simp [reads]

def shown (events : List Event) : List SseEvent := events.map fun event => ⟨event.1,event.2⟩

theorem shown_append (first rest : List Event) : shown (first ++ rest) = shown first ++ shown rest := List.map_append

-- JSON.parse gives back what JSON.stringify has written.
def Reads (parse : Text → Option Json) (events : List Event) : Prop := ∀ event ∈ events, parse (stringify event.2) = some event.2

theorem take_shown (events : List Event) (plain : ∀ event ∈ events, Plain event.1) (reads : Reads parse events)
    (open_ : ∀ event ∈ events, event.1 ≠ "done".toList) (before : List SseEvent) :
    (events.map block).foldl (Reading.take parse) ⟨before,false⟩ = ⟨before ++ shown events,false⟩ := by
  induction events generalizing before with
  | nil => simp [shown]
  | cons event events ih =>
    obtain ⟨first,others⟩ := List.forall_mem_cons.mp plain
    obtain ⟨read,rest⟩ := List.forall_mem_cons.mp reads
    obtain ⟨other,still⟩ := List.forall_mem_cons.mp open_
    have taken : Reading.take parse ⟨before,false⟩ (block event) = ⟨before ++ [⟨event.1,event.2⟩],false⟩ := by
      simp only [Reading.take,parseSseBlock_block first read,Bool.false_eq_true,if_false,if_neg other]
    rw [List.map_cons,List.foldl_cons,taken,ih others rest still,List.append_assoc]
    rfl

theorem take_done (blocks : List Text) (events : List SseEvent) : blocks.foldl (Reading.take parse) ⟨events,true⟩ = ⟨events,true⟩ := by
  induction blocks with
  | nil => rfl
  | cons block blocks ih => exact ih

theorem take_closing (plain : Plain "done".toList) (reads : Reads parse (closing :: late)) (ends : closing.1 = "done".toList)
    (events : List SseEvent) : ((closing :: late).map block).foldl (Reading.take parse) ⟨events,false⟩ = ⟨events,true⟩ := by
  have read := (List.forall_mem_cons.mp reads).1
  have taken : Reading.take parse ⟨events,false⟩ (block closing) = ⟨events,true⟩ := by
    simp [Reading.take,parseSseBlock_block (ends ▸ plain) read,ends]
  rw [List.map_cons,List.foldl_cons,taken]
  exact take_done _ events

end Reading

def eventNames : List String :=
  ["log","source:start","source:complete","source:error","transformation:start","transformation:complete","progress","compilation:complete",
    "cache","network","metric","diagnostic","result","error"]

def Named (event : Event) : Prop := ∃ name ∈ eventNames, event.1 = name.toList

theorem named_plain (named : Named event) : Plain event.1 ∧ event.1 ≠ "done".toList := by
  have all : ∀ name ∈ eventNames, '\n' ∉ name.toList ∧ trim name.toList = name.toList ∧ name.toList ≠ "done".toList := by decide +kernel
  obtain ⟨name,member,same⟩ := named
  obtain ⟨single,trimmed,other⟩ := all name member
  rw [same]
  exact ⟨⟨single,trimmed⟩,other⟩

theorem emitted_named (emitted : Emitted) : Named emitted.event := by
  cases emitted <;> exact ⟨_,by simp [eventNames],rfl⟩

theorem diagnostic_named (diagnostic : Diagnostic) : Named diagnostic.event := by
  unfold Diagnostic.event
  split
  · exact ⟨"cache",by simp [eventNames],rfl⟩
  · split
    · exact ⟨"network",by simp [eventNames],rfl⟩
    · split
      · exact ⟨"metric",by simp [eventNames],rfl⟩
      · exact ⟨"diagnostic",by simp [eventNames],rfl⟩

theorem error_named (message : Text) : Named (errorEvent message) := ⟨"error",by simp [eventNames],rfl⟩

theorem events_named (compilation : Compilation) : ∀ event ∈ compilation.events, Named event := by
  refine List.forall_mem_append.mpr ⟨?_,?_⟩
  · intro event member
    obtain ⟨emitted,-,rfl⟩ := List.mem_map.mp member
    exact emitted_named emitted
  · cases compilation.ending with
    | failed message => exact List.forall_mem_singleton.mpr (error_named message)
    | compiled diagnostics rules metrics previous unrecorded =>
      refine List.forall_mem_append.mpr ⟨?_,List.forall_mem_singleton.mpr ⟨"result",by simp [eventNames],rfl⟩⟩
      intro event member
      obtain ⟨diagnostic,-,rfl⟩ := List.mem_map.mp member
      exact diagnostic_named diagnostic

theorem done_plain : Plain "done".toList := ⟨by decide,by decide +kernel⟩

theorem closing_first (compilation : Compilation) :
    compilation.closing = [] ∨ ∃ closing late, compilation.closing = closing :: late ∧ closing.1 = "done".toList := by
  unfold Compilation.closing
  cases compilation.ending with
  | failed message => exact .inl rfl
  | compiled diagnostics rules metrics previous unrecorded => exact .inr ⟨_,_,rfl,rfl⟩

theorem sent_plain (compilation : Compilation) : ∀ event ∈ compilation.events ++ compilation.closing, Plain event.1 := by
  refine List.forall_mem_append.mpr ⟨fun event member => (named_plain (events_named compilation event member)).1,?_⟩
  unfold Compilation.closing
  cases compilation.ending with
  | failed message => simp
  | compiled diagnostics rules metrics previous unrecorded =>
    refine List.forall_mem_cons.mpr ⟨done_plain,?_⟩
    intro event member
    obtain ⟨message,-,rfl⟩ := List.mem_map.mp member
    exact (named_plain (error_named message)).1

section Attempts
variable {parse : Text → Option Json} {compilation : Compilation}

theorem streamFetch_whole (chunks : List Text) :
    streamFetch parse chunks = (cut '\n' chunks.flatten).1.foldl (Reading.take parse) ⟨[],false⟩ := by
  rw [streamFetch,feed_pieces (Reading.take parse) ⟨[],false⟩ [] rfl chunks]
  rfl

theorem cut_part (part : chunks.flatten <+: handleCompileStream compilation) :
    ∃ n, (cut '\n' (chunks : List Text).flatten).1 = ((compilation.events ++ compilation.closing).take n).map block := by
  obtain ⟨later,whole⟩ := part
  have all := cut_frames _ (sent_plain compilation)
  rw [← handleCompileStream,← whole,cut_append] at all
  have first : (cut '\n' (chunks : List Text).flatten).1 <+: (compilation.events ++ compilation.closing).map block :=
    ⟨_,congrArg Prod.fst all⟩
  exact ⟨_,(List.prefix_iff_eq_take.mp first).trans List.map_take.symm⟩

theorem take_events (reads : Reads parse compilation.events) (n : Nat) :
    ((compilation.events.take n).map block).foldl (Reading.take parse) ⟨[],false⟩ = ⟨shown (compilation.events.take n),false⟩ := by
  have named (event : Event) (member : event ∈ compilation.events.take n) := named_plain (events_named compilation event (List.mem_of_mem_take member))
  exact take_shown _ (fun event member => (named event member).1) (fun event member => reads event (List.mem_of_mem_take member))
    (fun event member => (named event member).2) []

theorem take_sent (reads : Reads parse (compilation.events ++ compilation.closing)) (late : compilation.events.length ≤ n) :
    ∃ done, (((compilation.events ++ compilation.closing).take n).map block).foldl (Reading.take parse) ⟨[],false⟩ =
      ⟨shown compilation.events,done⟩ := by
  obtain ⟨first,behind⟩ := List.forall_mem_append.mp reads
  have all := take_events first compilation.events.length
  rw [List.take_length] at all
  rw [List.take_append,List.take_of_length_le late,List.map_append,List.foldl_append,all]
  rcases closing_first compilation with nothing | ⟨closing,rest,parts,ends⟩
  · rw [nothing,List.take_nil]
    exact ⟨false,rfl⟩
  · rw [parts]
    cases n-compilation.events.length with
    | zero => exact ⟨false,rfl⟩
    | succ k =>
      have read : Reads parse (closing :: rest.take k) := fun event member => behind event (parts ▸ List.mem_of_mem_take (i := k+1) member)
      exact ⟨true,take_closing done_plain read ends _⟩

-- What an attempt has read of the stream: the first events of it, and all of
-- them if it knows that it is over.
theorem read_part (reads : Reads parse (compilation.events ++ compilation.closing)) (part : chunks.flatten <+: handleCompileStream compilation) :
    ∃ seen, seen <+: compilation.events ∧ (streamFetch parse chunks).events = shown seen ∧
      ((streamFetch parse chunks).done = true → seen = compilation.events) := by
  obtain ⟨n,blocks⟩ := cut_part part
  rw [streamFetch_whole,blocks]
  by_cases late : compilation.events.length ≤ n
  · obtain ⟨done,read⟩ := take_sent reads late
    exact ⟨_,List.prefix_rfl,by rw [read],fun _ => rfl⟩
  · have early : n ≤ compilation.events.length := by omega
    have read := take_events (List.forall_mem_append.mp reads).1 n
    rw [List.take_append_of_le_length early,read]
    refine ⟨_,List.take_prefix n _,rfl,?_⟩
    intro done
    cases done

theorem read_whole (reads : Reads parse (compilation.events ++ compilation.closing)) (whole : chunks.flatten = handleCompileStream compilation) :
    (streamFetch parse chunks).events = shown compilation.events := by
  have blocks := congrArg Prod.fst (cut_frames _ (sent_plain compilation))
  rw [streamFetch_whole,whole,handleCompileStream,blocks]
  have late : compilation.events.length ≤ (compilation.events ++ compilation.closing).length := by simp
  obtain ⟨done,read⟩ := take_sent reads late
  rw [List.take_length] at read
  rw [read]

end Attempts

-- One request of the client: what the worker does about it, and what of that
-- comes back. A stream that is closed has come whole.
structure Attempt where
  compilation : Compilation
  fate : Fate

def Attempt.Faithful (attempt : Attempt) : Prop :=
  match attempt.fate with
  | .refused | .unanswered => True
  | .broken chunks | .going chunks => chunks.flatten <+: handleCompileStream attempt.compilation
  | .closed chunks => chunks.flatten = handleCompileStream attempt.compilation

def Attempt.Read (parse : Text → Option Json) (attempt : Attempt) : Prop :=
  Reads parse (attempt.compilation.events ++ attempt.compilation.closing)

-- How an attempt leaves the connection: at the end of the stream, or on the
-- way. One that failed does not leave it anywhere.
def Attempt.standing (parse : Text → Option Json) (attempt : Attempt) : Option SseStatus :=
  if (attempt.fate.reading parse).done then some .closed else attempt.fate.pending

-- What is seen of an attempt: the first events that were sent, and all of them
-- at the end of the stream.
structure Seen (parse : Text → Option Json) (attempt : Attempt) (seen : List Event) : Prop where
  part : seen <+: attempt.compilation.events
  whole : attempt.standing parse = some .closed → seen = attempt.compilation.events

-- What a connection has to show for the attempts that were made: the events of
-- each in their order. Behind one that has not failed there is no other, and
-- the client stands where it is; when all have failed it waits, or gives up.
structure Received (parse : Text → Option Json) (left : Bool) (made : List Attempt) (seen : List (List Event)) (connection : SseConnection) : Prop where
  parts : List.Forall₂ (Seen parse) made seen
  events : connection.events = shown seen.flatten
  few : made.length ≤ MAX_RETRIES+1
  earlier : ∀ before one behind, made = before ++ one :: behind → one.standing parse ≠ none → behind = []
  closed : connection.status = .closed ↔ left = true ∨ ∃ one ∈ made, one.standing parse = some .closed
  open_ : connection.status = .open ↔ left = false ∧ ∃ one ∈ made, one.standing parse = some .open
  connecting : connection.status = .connecting ↔ left = false ∧
    ((made.length ≤ MAX_RETRIES ∧ ∀ one ∈ made, one.standing parse = none) ∨ ∃ one ∈ made, one.standing parse = some .connecting)
  error : connection.status = .error ↔ left = false ∧ made.length = MAX_RETRIES+1 ∧ ∀ one ∈ made, one.standing parse = none
  begun : connection.status ≠ .idle
  delays : connection.delays = (List.range (min MAX_RETRIES (made.countP fun one => (one.standing parse).isNone))).map wait

section Connections
variable {parse : Text → Option Json}

theorem attempt_reading {one : Attempt} (reads : one.Read parse) (faithful : one.Faithful) :
    ∃ seen, Seen parse one seen ∧ (one.fate.reading parse).events = shown seen := by
  obtain ⟨compilation,fate⟩ := one
  have streamed {chunks : List Text} (same : fate.reading parse = streamFetch parse chunks) (ongoing : fate.pending ≠ some .closed)
      (part : chunks.flatten <+: handleCompileStream compilation) :
      ∃ seen, Seen parse ⟨compilation,fate⟩ seen ∧ (fate.reading parse).events = shown seen := by
    obtain ⟨seen,first,shows,whole⟩ := read_part reads part
    refine ⟨seen,⟨first,fun ended => whole ?_⟩,same ▸ shows⟩
    by_contra open_
    simp only [Attempt.standing,same,if_neg open_] at ended
    exact ongoing ended
  cases fate with
  | refused => exact ⟨[],⟨List.nil_prefix,fun ended => by cases ended⟩,rfl⟩
  | unanswered => exact ⟨[],⟨List.nil_prefix,fun ended => by cases ended⟩,rfl⟩
  | broken chunks => exact streamed rfl (by simp [Fate.pending]) faithful
  | going chunks => exact streamed rfl (by simp [Fate.pending]) faithful
  | closed chunks => exact ⟨_,⟨List.prefix_rfl,fun _ => rfl⟩,read_whole reads faithful⟩

structure Going (parse : Text → Option Json) (retry : Nat) (before : SseConnection) (made : List Attempt) (seen : List (List Event))
    (after : SseConnection) : Prop where
  parts : List.Forall₂ (Seen parse) made seen
  events : after.events = before.events ++ shown seen.flatten
  few : retry+made.length ≤ MAX_RETRIES+1
  earlier : ∀ first one behind, made = first ++ one :: behind → one.standing parse ≠ none → behind = []
  stands : ∀ one ∈ made, ∀ status, one.standing parse = some status → after.status = status
  failed : (∀ one ∈ made, one.standing parse = none) → after.status = if retry+made.length = MAX_RETRIES+1 then .error else .connecting
  delays : after.delays = before.delays ++
    (List.range' retry (min (MAX_RETRIES-retry) (made.countP fun one => (one.standing parse).isNone))).map wait

theorem going_none (few : retry ≤ MAX_RETRIES) (connection : SseConnection) :
    Going parse retry connection [] [] { connection with status := .connecting } where
  parts := .nil
  events := by simp [shown]
  few := by simpa using Nat.le_succ_of_le few
  earlier := fun first one behind parts => by simp at parts
  stands := fun one member => by cases member
  failed := fun _ => by simp [show retry ≠ MAX_RETRIES+1 by omega]
  delays := by simp

theorem going_last {one : Attempt} (first : Seen parse one seen) (shows : (one.fate.reading parse).events = shown seen) (few : retry ≤ MAX_RETRIES)
    (connection : SseConnection) (stands : ∀ after, one.standing parse = some after → status = after)
    (failed : one.standing parse = none → retry = MAX_RETRIES ∧ status = .error) :
    Going parse retry connection [one] [seen] { connection.read retry (one.fate.reading parse) with status := status } where
  parts := .cons first .nil
  events := by simp [SseConnection.read,shows]
  few := by simpa using few
  earlier := by
    intro before last behind parts _
    have alone := congrArg List.length parts
    simp at alone
    exact List.eq_nil_of_length_eq_zero (by omega)
  stands := List.forall_mem_singleton.mpr stands
  failed := by
    intro all
    obtain ⟨last,given_up⟩ := failed (all one (List.mem_singleton_self one))
    simp [last,given_up]
  delays := by
    cases standing : one.standing parse with
    | some after => simp [SseConnection.read,standing]
    | none => simp [SseConnection.read,(failed standing).1]

theorem going_next {one : Attempt} {seen : List Event} {connection after : SseConnection} (first : Seen parse one seen)
    (shows : (one.fate.reading parse).events = shown seen) (failed : one.standing parse = none) (again : retry < MAX_RETRIES)
    (going : Going parse (retry+1) ((connection.read retry (one.fate.reading parse)).again retry) made behind after) :
    Going parse retry connection (one :: made) (seen :: behind) after where
  parts := .cons first going.parts
  events := by
    rw [going.events,List.flatten_cons,shown_append,← shows,← List.append_assoc]
    rfl
  few := by
    have few := going.few
    rw [List.length_cons]
    omega
  earlier := by
    intro before last later parts standing
    cases before with
    | nil => exact absurd ((List.cons.inj parts).1 ▸ failed) standing
    | cons one' before => exact going.earlier before last later (List.cons.inj parts).2 standing
  stands := by
    refine List.forall_mem_cons.mpr ⟨fun status standing => ?_,going.stands⟩
    rw [failed] at standing
    cases standing
  failed := by
    intro all
    rw [going.failed (List.forall_mem_cons.mp all).2,List.length_cons,Nat.add_right_comm,Nat.add_assoc]
  delays := by
    have more : min (MAX_RETRIES-retry) ((one :: made).countP fun one => (one.standing parse).isNone) =
        min (MAX_RETRIES-(retry+1)) (made.countP fun one => (one.standing parse).isNone)+1 := by
      rw [List.countP_cons_of_pos (by simp [failed])]
      omega
    rw [going.delays,more,List.range'_succ,List.map_cons]
    simp [SseConnection.again,SseConnection.read]

theorem attempt_ends {one : Attempt} (stands : one.standing parse = some after) (retry : Nat) (connection : SseConnection) (fates : List Fate) :
    attempt parse retry connection (one.fate :: fates) = { connection.read retry (one.fate.reading parse) with status := after } := by
  rw [Attempt.standing] at stands
  rw [attempt]
  split at stands
  · rename_i done
    cases stands
    exact if_pos done
  · rename_i open_
    simp only [if_neg open_,stands]

theorem attempt_fails {one : Attempt} (failed : one.standing parse = none) (retry : Nat) (connection : SseConnection) (fates : List Fate) :
    attempt parse retry connection (one.fate :: fates) =
      if retry < MAX_RETRIES then attempt parse (retry+1) ((connection.read retry (one.fate.reading parse)).again retry) fates
      else { connection.read retry (one.fate.reading parse) with status := .error } := by
  rw [Attempt.standing] at failed
  rw [attempt]
  split at failed
  · cases failed
  · rename_i open_
    simp only [if_neg open_,failed]

theorem attempt_going (attempts : List Attempt) (reads : ∀ attempt ∈ attempts, attempt.Read parse) (faithful : ∀ attempt ∈ attempts, attempt.Faithful)
    (retry : Nat) (few : retry ≤ MAX_RETRIES) (connection : SseConnection) :
    ∃ made later seen, attempts = made ++ later ∧ Going parse retry connection made seen (attempt parse retry connection (attempts.map Attempt.fate)) ∧
      ((∀ one ∈ made, one.standing parse = none) → retry+made.length = MAX_RETRIES+1 ∨ later = []) := by
  induction attempts generalizing retry connection with
  | nil => exact ⟨[],[],[],rfl,going_none few connection,fun _ => .inr rfl⟩
  | cons one attempts ih =>
    obtain ⟨read,others⟩ := List.forall_mem_cons.mp reads
    obtain ⟨sent,rest⟩ := List.forall_mem_cons.mp faithful
    obtain ⟨seen,first,shows⟩ := attempt_reading read sent
    rw [List.map_cons]
    cases standing : one.standing parse with
    | some after =>
      rw [attempt_ends standing]
      refine ⟨[one],attempts,[seen],rfl,going_last first shows few connection ?_ ?_,?_⟩
      · exact fun status same => Option.some.inj (standing.symm.trans same)
      · intro failed
        rw [standing] at failed
        cases failed
      · intro failed
        have alone := failed one (List.mem_singleton_self one)
        rw [standing] at alone
        cases alone
    | none =>
      rw [attempt_fails standing]
      by_cases again : retry < MAX_RETRIES
      · rw [if_pos again]
        obtain ⟨made,later,behind,rfl,going,still⟩ :=
          ih others rest (retry+1) again ((connection.read retry (one.fate.reading parse)).again retry)
        refine ⟨one :: made,later,seen :: behind,rfl,going_next first shows standing again going,fun all => ?_⟩
        have ends := still (List.forall_mem_cons.mp all).2
        rwa [List.length_cons,← Nat.add_assoc,Nat.add_right_comm]
      · rw [if_neg again]
        have last : retry = MAX_RETRIES := by omega
        refine ⟨[one],attempts,[seen],rfl,going_last first shows few connection ?_ fun _ => ⟨last,rfl⟩,fun _ => .inl (by simp [last])⟩
        intro status stands
        rw [standing] at stands
        cases stands

theorem standing_kinds {one : Attempt} (standing : one.standing parse = some status) : status = .closed ∨ status = .open ∨ status = .connecting := by
  unfold Attempt.standing at standing
  split at standing
  · exact .inl (Option.some.inj standing).symm
  · obtain ⟨compilation,fate⟩ := one
    cases fate with
    | unanswered => exact .inr (.inr (Option.some.inj standing).symm)
    | going chunks => exact .inr (.inl (Option.some.inj standing).symm)
    | refused | broken chunks | closed chunks => cases standing

theorem Going.status_iff {made : List Attempt} {after : SseConnection} (going : Going parse 0 before made seen after) (status : SseStatus) :
    after.status = status ↔ (∃ one ∈ made, one.standing parse = some status) ∨
      (∀ one ∈ made, one.standing parse = none) ∧ (if made.length = MAX_RETRIES+1 then .error else .connecting) = status := by
  have failed := going.failed
  rw [Nat.zero_add] at failed
  constructor
  · rintro rfl
    by_cases all : ∀ one ∈ made, one.standing parse = none
    · exact .inr ⟨all,(failed all).symm⟩
    · obtain ⟨one,member,standing⟩ : ∃ one ∈ made, one.standing parse ≠ none := by simpa using all
      obtain ⟨status,same⟩ := Option.ne_none_iff_exists'.mp standing
      exact .inl ⟨one,member,same.trans (congrArg some (going.stands one member status same).symm)⟩
  · rintro (⟨one,member,standing⟩ | ⟨all,rfl⟩)
    · exact going.stands one member status standing
    · exact failed all

theorem Going.received {made : List Attempt} {after : SseConnection} (going : Going parse 0 ⟨[],.idle,0,[]⟩ made seen after) (left : Bool) :
    Received parse left made seen (if left then after.close else after) := by
  have few := going.few
  rw [Nat.zero_add] at few
  have delays := going.delays
  rw [Nat.sub_zero,← List.range_eq_range'] at delays
  have no_error : ¬∃ one ∈ made, one.standing parse = some .error := by
    rintro ⟨one,-,standing⟩
    rcases standing_kinds standing with kind | kind | kind <;> cases kind
  have no_idle : ¬∃ one ∈ made, one.standing parse = some .idle := by
    rintro ⟨one,-,standing⟩
    rcases standing_kinds standing with kind | kind | kind <;> cases kind
  cases left with
  | true =>
    refine ⟨going.parts,going.events,few,going.earlier,?_,?_,?_,?_,?_,delays⟩
    all_goals simp [SseConnection.close]
  | false =>
    refine ⟨going.parts,going.events,few,going.earlier,?_,?_,?_,?_,?_,delays⟩
    all_goals simp only [Bool.false_eq_true,if_false,false_or,true_and,ne_eq,going.status_iff]
    all_goals grind

-- The first stream breaks before its result is whole, the second comes in two
-- parts.
def oneRule : Compilation := ⟨[.log .info "Go".toList],.compiled [] ["||a^".toList] none none none⟩

def oneRuleData : List Json := (oneRule.events ++ oneRule.closing).map Prod.snd

def oneRuleParse (text : Text) : Option Json := oneRuleData.find? fun value => decide (stringify value = text)

def oneRuleText : Text := handleCompileStream oneRule

def oneRuleAttempts : List Attempt :=
  [⟨oneRule,.broken [oneRuleText.take 20,(oneRuleText.drop 20).take 70]⟩,⟨oneRule,.closed [oneRuleText.take 60,oneRuleText.drop 60]⟩]

theorem oneRule_reads : Reads oneRuleParse (oneRule.events ++ oneRule.closing) := by
  intro event member
  have sent : event.2 ∈ oneRuleData := List.mem_map_of_mem member
  have found : (oneRuleParse (stringify event.2)).isSome := List.find?_isSome.mpr ⟨event.2,sent,by simp⟩
  obtain ⟨value,first⟩ := Option.isSome_iff_exists.mp found
  have same : stringify value = stringify event.2 := by simpa using List.find?_some first
  have different : (oneRuleData.map stringify).Nodup := by decide +kernel
  have value_eq := List.inj_on_of_nodup_map different (List.mem_of_find?_eq_some first) sent same
  rw [first,value_eq]

end Connections

end AdblockCompiler.EventStream
