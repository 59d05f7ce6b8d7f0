import AdblockCompiler.JsText

namespace NestedBlocks

-- A well-nested document over items α: keyed blocks with one or two branches.
-- `rest` is what follows on the same level.
inductive Document (κ α : Type) where
  | done
  | leaf (item : α) (rest : Document κ α)
  | block (key : κ) (thens rest : Document κ α)
  | branch (key : κ) (thens elses rest : Document κ α)

-- What a document stands for once every key is decided.
def Document.flatten (holds : κ → Bool) : Document κ α → List α
  | .done => []
  | .leaf item rest => item :: rest.flatten holds
  | .block key thens rest => (if holds key then thens.flatten holds else []) ++ rest.flatten holds
  | .branch key thens elses rest =>
    (if holds key then thens.flatten holds else elses.flatten holds) ++ rest.flatten holds

-- Printing is a relation: the lines that open, divide and close a block are
-- not determined by the document, only constrained.
structure Marks (κ α : Type) where
  opens : κ → α → Prop
  divides : α → Prop
  closes : α → Prop
  plain : α → Prop

inductive Prints (marks : Marks κ α) : Document κ α → List α → Prop where
  | done : Prints marks .done []
  | leaf (plain : marks.plain item) (after : Prints marks rest lines) :
      Prints marks (.leaf item rest) (item :: lines)
  | block (opened : marks.opens key head) (inner : Prints marks thens body)
      (closed : marks.closes tail) (after : Prints marks rest lines) :
      Prints marks (.block key thens rest) (head :: (body ++ tail :: lines))
  | branch (opened : marks.opens key head) (inner : Prints marks thens body)
      (divided : marks.divides middle) (other : Prints marks elses alternative)
      (closed : marks.closes tail) (after : Prints marks rest lines) :
      Prints marks (.branch key thens elses rest) (head :: (body ++ middle :: (alternative ++ tail :: lines)))

end NestedBlocks

namespace AdblockCompiler.Preprocessor
open JsText NestedBlocks

inductive DirectiveType where
  | If | Else | EndIf | Include | Safari
  deriving DecidableEq, Repr

def DirectiveType.text : DirectiveType → Text
  | .If => "!#if".toList
  | .Else => "!#else".toList
  | .EndIf => "!#endif".toList
  | .Include => "!#include".toList
  | .Safari => "!#safari_cb_affinity".toList

def starts (line : Text) (directive : DirectiveType) : Bool := startsWith (trim line) directive.text
def equals (line : Text) (directive : DirectiveType) : Bool := trim line == directive.text

structure ConditionalBlock where
  condition : Text
  ifLines : List Text
  elseLines : List Text
  deriving DecidableEq, Repr

def ConditionalBlock.push (block : ConditionalBlock) (inElse : Bool) (line : Text) : ConditionalBlock :=
  if inElse then {block with elseLines := block.elseLines ++ [line]}
  else {block with ifLines := block.ifLines ++ [line]}

-- The while loop of parseConditionalBlock, on the lines not read yet. The
-- second component is the loop's index when it leaves.
def parseLoop : Nat → Bool → Nat → ConditionalBlock → List Text → ConditionalBlock × Nat
  | _,_,i,block,[] => (block,i)
  | 0,_,i,block,_ :: _ => (block,i)
  | depth+1,inElse,i,block,line :: rest =>
    if starts line .If then parseLoop (depth+2) inElse (i+1) (block.push inElse line) rest
    else if equals line .EndIf then
      parseLoop depth inElse (i+1) (if depth > 0 then block.push inElse line else block) rest
    else if equals line .Else && depth == 0 then parseLoop (depth+1) true (i+1) block rest
    else parseLoop (depth+1) inElse (i+1) (block.push inElse line) rest

-- What stands after the directive on its line.
def conditionOf (line : Text) : Text := trim ((trim line).drop DirectiveType.If.text.length)
def includePathOf (line : Text) : Text := trim ((trim line).drop DirectiveType.Include.text.length)

def parseFrom (lines : List Text) (startIndex : Nat) : ConditionalBlock × Nat :=
  parseLoop 1 false (startIndex+1) ⟨conditionOf (lines.getD startIndex []),[],[]⟩ (lines.drop (startIndex+1))

def parseConditionalBlock (lines : List Text) (startIndex : Nat) : ConditionalBlock :=
  (parseFrom lines startIndex).1

-- The while loop of findEndIfIndex; none when it runs off the end.
def findLoop : Nat → Nat → List Text → Option Nat
  | _,_,[] => none
  | 0,_,_ :: _ => none
  | depth+1,i,line :: rest =>
    let after := if starts line .If then depth+2 else if equals line .EndIf then depth else depth+1
    if after = 0 then some i else findLoop after (i+1) rest

def findEndIfIndex (lines : List Text) (startIndex : Nat) : Nat :=
  (findLoop 1 (startIndex+1) (lines.drop (startIndex+1))).getD (lines.length-1)

-- Skips to after the line that closes a safari_cb_affinity block.
def skipSafari : List Text → List Text
  | [] => []
  | line :: rest =>
    if starts line .Safari && (trim line).length == DirectiveType.Safari.text.length then rest else skipSafari rest

abbrev Outcome (σ : Type) := Except Thrown (List Text) × σ

-- Awaiting one step and going on with its lines in front of the next step's.
def Outcome.andThen (first : Outcome σ) (next : σ → Outcome σ) : Outcome σ :=
  match first with
  | (.error thrown,s) => (.error thrown,s)
  | (.ok lines,s) =>
    match next s with
    | (.error thrown,s) => (.error thrown,s)
    | (.ok more,s) => (.ok (lines ++ more),s)

-- What processDirectives calls: the condition evaluator, the path resolution
-- against the document's own base path, and downloadInternal one level deeper.
-- σ is the downloader's state.
structure Environment (σ : Type) where
  evaluateCondition : Text → Bool
  resolveIncludePath : Text → Except Thrown Text
  downloadInternal : Text → σ → Outcome σ

-- The include branch: the path is resolved before the try block is entered, so
-- only what the nested download throws is caught.
def includeBranch (env : Environment σ) (includePath : Text) (s : σ) : Outcome σ :=
  match env.resolveIncludePath includePath with
  | .error thrown => (.error thrown,s)
  | .ok resolvedPath =>
    match env.downloadInternal resolvedPath s with
    | (.ok included,s) => (.ok included,s)
    | (.error _,s) => (.ok [],s)

-- The while loop of processDirectives on the lines from the current index on;
-- a nested call and the rest of the loop both read fewer lines, so the number
-- of lines bounds the recursion.
def processLoop (env : Environment σ) : Nat → List Text → σ → Outcome σ
  | 0,_,s => (.ok [],s)
  | _+1,[],s => (.ok [],s)
  | fuel+1,line :: rest,s =>
    if starts line .If then
      let block := parseConditionalBlock (line :: rest) 0
      let processed : Outcome σ :=
        if env.evaluateCondition (conditionOf line) then processLoop env fuel block.ifLines s
        else if block.elseLines.length > 0 then processLoop env fuel block.elseLines s
        else (.ok [],s)
      processed.andThen (processLoop env fuel ((line :: rest).drop (findEndIfIndex (line :: rest) 0 + 1)))
    else if starts line .Include then
      (includeBranch env (includePathOf line) s).andThen (processLoop env fuel rest)
    else if starts line .Safari then processLoop env fuel (skipSafari rest) s
    else if equals line .Else || equals line .EndIf then processLoop env fuel rest s
    else Outcome.andThen (.ok [line],s) (processLoop env fuel rest)

def processDirectives (env : Environment σ) (lines : List Text) (s : σ) : Outcome σ :=
  processLoop env lines.length lines s

-- Both scans count the same depth, so the index at which the block parser leaves
-- its loop is one past the index the other scan finds.
theorem parse_index (depth : Nat) (inElse : Bool) (i : Nat) (block : ConditionalBlock) (lines : List Text) :
    (parseLoop (depth+1) inElse i block lines).2 =
      match findLoop (depth+1) i lines with
      | some found => found+1
      | none => i+lines.length := by
  induction lines generalizing depth inElse i block with
  | nil => simp [parseLoop,findLoop]
  | cons line rest ih =>
    have shift : i+1+rest.length = i+(line :: rest).length := by simp; omega
    by_cases opens : starts line .If = true
    · simp only [parseLoop,findLoop,opens,if_true,Nat.add_eq_zero_iff,reduceCtorEq,and_false,if_false]
      rw [ih,shift]
    · by_cases closes : equals line .EndIf = true
      · cases depth with
        | zero =>
          simp only [parseLoop,findLoop,opens,closes,if_true]
          cases rest <;> simp [parseLoop]
        | succ depth =>
          simp only [parseLoop,findLoop,opens,closes,if_true,if_false,Nat.add_eq_zero_iff,reduceCtorEq,and_false]
          rw [ih,shift]
      · simp only [parseLoop,findLoop,opens,closes,if_false,Nat.add_eq_zero_iff,reduceCtorEq,and_false]
        split
        · rw [ih,shift]
        · rw [ih,shift]

theorem same_span (inside : startIndex < lines.length) :
    (parseFrom lines startIndex).2 = findEndIfIndex lines startIndex + 1 := by
  rw [parseFrom,parse_index,findEndIfIndex]
  cases findLoop 1 (startIndex+1) (lines.drop (startIndex+1)) with
  | some found => rfl
  | none => simp only [List.length_drop,Option.getD_none]; omega

-- Documents as they are written: a directive line may carry blanks around the
-- directive, an !#if also between the directive and its condition.
def Plain (line : Text) : Prop :=
  starts line .If = false ∧ starts line .Include = false ∧ starts line .Safari = false ∧
    equals line .Else = false ∧ equals line .EndIf = false

def Writes (directive : DirectiveType) (line : Text) : Prop :=
  ∃ front back, AllSpace front ∧ AllSpace back ∧ line = front ++ directive.text ++ back

def Opens (condition line : Text) : Prop :=
  ∃ front gap back, AllSpace front ∧ AllSpace gap ∧ AllSpace back ∧
    line = front ++ DirectiveType.If.text ++ gap ++ condition ++ back

def marks : Marks Text Text :=
  ⟨Opens,Writes .Else,Writes .EndIf,Plain⟩

theorem trimmed_text (directive : DirectiveType) : Trimmed directive.text := by
  cases directive <;> exact trimmed_ends (by decide) (by decide)

theorem writes_trim (written : Writes directive line) : trim line = directive.text := by
  obtain ⟨front,back,left,right,rfl⟩ := written
  rw [trim_padded left right,trim_trimmed (trimmed_text directive)]

theorem opens_trim (opened : Opens condition line) :
    starts line .If = true ∧ conditionOf line = trim condition := by
  obtain ⟨front,gap,back,left,middle,right,rfl⟩ := opened
  have whole : trim (front ++ DirectiveType.If.text ++ gap ++ condition ++ back) =
      DirectiveType.If.text ++ trimEnd (gap ++ condition ++ back) := by
    have := trim_word left (trimmed_text .If) (by decide) (gap ++ condition ++ back)
    simpa only [List.append_assoc] using this
  refine ⟨by rw [starts,whole]; exact startsWith_append _ _,?_⟩
  rw [conditionOf,whole,List.drop_left,trim_trimEnd,trim_padded middle right]

theorem writes_starts (written : Writes directive line) (other : startsWith directive.text first.text = false) :
    starts line first = false := by rw [starts,writes_trim written,other]

theorem writes_equals (written : Writes directive line) : equals line directive = true := by
  rw [equals,writes_trim written]; exact beq_self_eq_true _

theorem writes_differs (written : Writes directive line) (other : directive ≠ second) : equals line second = false := by
  rw [equals,writes_trim written]
  cases directive <;> cases second <;> first | exact absurd rfl other | decide

-- Pushing lines one after another onto the branch being read.
def ConditionalBlock.pushAll (block : ConditionalBlock) (inElse : Bool) (lines : List Text) : ConditionalBlock :=
  lines.foldl (fun block line => block.push inElse line) block

theorem pushAll_lines (block : ConditionalBlock) (inElse : Bool) (lines : List Text) :
    block.pushAll inElse lines =
      if inElse then {block with elseLines := block.elseLines ++ lines} else {block with ifLines := block.ifLines ++ lines} := by
  induction lines generalizing block with
  | nil => cases inElse <;> simp [ConditionalBlock.pushAll]
  | cons line rest ih =>
    have step : block.pushAll inElse (line :: rest) = (block.push inElse line).pushAll inElse rest := rfl
    rw [step,ih]
    cases inElse <;> simp [ConditionalBlock.push]

@[simp] theorem pushAll_if (block : ConditionalBlock) (lines : List Text) :
    block.pushAll false lines = {block with ifLines := block.ifLines ++ lines} := pushAll_lines block false lines

@[simp] theorem pushAll_else (block : ConditionalBlock) (lines : List Text) :
    block.pushAll true lines = {block with elseLines := block.elseLines ++ lines} := pushAll_lines block true lines

-- A well-nested stretch inside a block is pushed whole and leaves the depth as
-- it was: its own blocks are read one level deeper, where !#else does not count.
theorem parse_document (printed : Prints marks document body) (depth : Nat) (inElse : Bool) (i : Nat)
    (block : ConditionalBlock) (rest : List Text) :
    parseLoop (depth+1) inElse i block (body ++ rest) =
      parseLoop (depth+1) inElse (i+body.length) (block.pushAll inElse body) rest := by
  induction printed generalizing depth i block rest with
  | done => rfl
  | @leaf item tail lines plain after ih =>
    obtain ⟨notIf,-,-,notElse,notEnd⟩ := plain
    simp only [List.cons_append,parseLoop,notIf,notElse,notEnd,Bool.false_and,Bool.false_eq_true,if_false]
    rw [ih,List.length_cons,Nat.add_assoc,Nat.add_comm 1]
    rfl
  | @block key head thens body tail after lines opened inner closed remaining ihInner ihAfter =>
    have first := (opens_trim opened).1
    have last : starts tail .If = false := writes_starts closed (by decide)
    have endif := writes_equals closed
    simp only [List.cons_append,List.append_assoc,parseLoop,first,if_true]
    rw [ihInner]
    simp only [parseLoop,last,endif,Bool.false_eq_true,if_false,if_true,Nat.succ_pos]
    rw [ihAfter]
    congr 1
    · simp; omega
    · simp [ConditionalBlock.pushAll,List.foldl_append]
  | @branch key head thens body middle elses alternative tail after lines opened inner divided other closed remaining ihInner ihOther ihAfter =>
    have first := (opens_trim opened).1
    have mid : starts middle .If = false := writes_starts divided (by decide)
    have midEnd : equals middle .EndIf = false := writes_differs divided (by decide)
    have last : starts tail .If = false := writes_starts closed (by decide)
    have endif := writes_equals closed
    simp only [List.cons_append,List.append_assoc,parseLoop,first,if_true]
    rw [ihInner]
    simp only [parseLoop,mid,midEnd,Bool.false_eq_true,if_false,Nat.add_one_ne_zero,beq_iff_eq,Bool.and_eq_true,and_false]
    rw [ihOther]
    simp only [parseLoop,last,endif,Bool.false_eq_true,if_false,if_true,Nat.succ_pos]
    rw [ihAfter]
    congr 1
    · simp; omega
    · simp [ConditionalBlock.pushAll,List.foldl_append]

-- The abstract document: once its conditions are decided, what is left is a
-- sequence of lines to keep and documents to include.
inductive Piece where
  | line (text : Text)
  | inclusion (path : Text)
  deriving DecidableEq, Repr

def piecesLoop (holds : Text → Bool) : Nat → List Text → List Piece
  | 0,_ => []
  | _+1,[] => []
  | fuel+1,line :: rest =>
    if starts line .If then
      let block := parseConditionalBlock (line :: rest) 0
      piecesLoop holds fuel (if holds (conditionOf line) then block.ifLines else block.elseLines) ++
        piecesLoop holds fuel ((line :: rest).drop (findEndIfIndex (line :: rest) 0 + 1))
    else if starts line .Include then .inclusion (includePathOf line) :: piecesLoop holds fuel rest
    else if starts line .Safari then piecesLoop holds fuel (skipSafari rest)
    else if equals line .Else || equals line .EndIf then piecesLoop holds fuel rest
    else .line line :: piecesLoop holds fuel rest

def pieces (holds : Text → Bool) (lines : List Text) : List Piece := piecesLoop holds lines.length lines

def runPieces (env : Environment σ) : List Piece → σ → Outcome σ
  | [],s => (.ok [],s)
  | .line text :: more,s => Outcome.andThen (.ok [text],s) (runPieces env more)
  | .inclusion path :: more,s => (includeBranch env path s).andThen (runPieces env more)

theorem andThen_assoc (first : Outcome σ) (second third : σ → Outcome σ) :
    (first.andThen second).andThen third = first.andThen fun s => (second s).andThen third := by
  obtain ⟨result,s⟩ := first
  cases result with
  | error thrown => rfl
  | ok lines =>
    cases hs : second s with
    | mk result s =>
      cases result with
      | error thrown => simp [Outcome.andThen,hs]
      | ok more =>
        cases ht : third s with
        | mk result s => cases result <;> simp [Outcome.andThen,hs,ht]

@[simp] theorem nothing_andThen (s : σ) (next : σ → Outcome σ) : Outcome.andThen (.ok [],s) next = next s := by
  cases h : next s with
  | mk result s => cases result <;> simp [Outcome.andThen,h]

theorem andThen_ok (first : Outcome σ) (next : σ → Outcome σ) :
    first.andThen next = (.ok lines,after) ↔
      ∃ one middle more, first = (.ok one,middle) ∧ next middle = (.ok more,after) ∧ lines = one ++ more := by
  obtain ⟨result,s⟩ := first
  cases result with
  | error thrown => simp [Outcome.andThen]
  | ok one =>
    cases h : next s with
    | mk result s => cases result <;> simp [Outcome.andThen,h,eq_comm,and_comm]

theorem runPieces_append (env : Environment σ) (one two : List Piece) (s : σ) :
    runPieces env (one ++ two) s = (runPieces env one s).andThen (runPieces env two) := by
  induction one generalizing s with
  | nil => simp [runPieces]
  | cons piece rest ih =>
    have next : runPieces env (rest ++ two) = fun s => (runPieces env rest s).andThen (runPieces env two) :=
      funext ih
    cases piece <;> rw [List.cons_append,runPieces,runPieces,next,andThen_assoc]

-- The loop is the abstract document run piece by piece.
theorem process_pieces (env : Environment σ) (fuel : Nat) (lines : List Text) (s : σ) :
    processLoop env fuel lines s = runPieces env (piecesLoop env.evaluateCondition fuel lines) s := by
  induction fuel generalizing lines s with
  | zero => rfl
  | succ fuel ih =>
    cases lines with
    | nil => rfl
    | cons line rest =>
      have step : ∀ lines, processLoop env fuel lines =
          runPieces env (piecesLoop env.evaluateCondition fuel lines) := fun lines => funext (ih lines)
      have empty : piecesLoop env.evaluateCondition fuel [] = [] := by cases fuel <;> rfl
      unfold processLoop piecesLoop
      simp only [step]
      split
      · rw [runPieces_append]
        congr 1
        split
        · rfl
        · cases alternative : (parseConditionalBlock (line :: rest) 0).elseLines with
          | nil => simp [empty,runPieces]
          | cons => simp
      · split
        · rfl
        · split
          · rfl
          · split <;> rfl

theorem push_length (block : ConditionalBlock) (inElse : Bool) (line : Text) :
    (block.push inElse line).ifLines.length + (block.push inElse line).elseLines.length =
      block.ifLines.length + block.elseLines.length + 1 := by
  cases inElse with
  | false => simp [ConditionalBlock.push]; omega
  | true => simp [ConditionalBlock.push,Nat.add_assoc]

theorem parse_length (depth : Nat) (inElse : Bool) (i : Nat) (block : ConditionalBlock) (lines : List Text) :
    (parseLoop depth inElse i block lines).1.ifLines.length + (parseLoop depth inElse i block lines).1.elseLines.length ≤
      block.ifLines.length + block.elseLines.length + lines.length := by
  induction lines generalizing depth inElse i block with
  | nil => simp [parseLoop]
  | cons line rest ih =>
    cases depth with
    | zero => simp [parseLoop]
    | succ depth =>
      have pushed := push_length block inElse line
      unfold parseLoop
      split
      · have := ih (depth+2) inElse (i+1) (block.push inElse line)
        simp only [List.length_cons] at *; omega
      · split
        · split
          · have := ih depth inElse (i+1) (block.push inElse line)
            simp only [List.length_cons] at *; omega
          · have := ih depth inElse (i+1) block
            simp only [List.length_cons] at *; omega
        · split
          · have := ih (depth+1) true (i+1) block
            simp only [List.length_cons] at *; omega
          · have := ih (depth+1) inElse (i+1) (block.push inElse line)
            simp only [List.length_cons] at *; omega

theorem branch_length (line : Text) (rest : List Text) :
    (parseConditionalBlock (line :: rest) 0).ifLines.length ≤ rest.length ∧
      (parseConditionalBlock (line :: rest) 0).elseLines.length ≤ rest.length := by
  have bound := parse_length 1 false 1 ⟨conditionOf line,[],[]⟩ rest
  simp only [List.length_nil,Nat.add_zero,Nat.zero_add] at bound
  simp only [parseConditionalBlock,parseFrom,List.drop_succ_cons,List.drop_zero]
  exact ⟨Nat.le_trans (Nat.le_add_right _ _) bound,Nat.le_trans (Nat.le_add_left _ _) bound⟩

theorem skip_length (lines : List Text) : (skipSafari lines).length ≤ lines.length := by
  induction lines with
  | nil => exact Nat.le_refl _
  | cons line rest ih =>
    unfold skipSafari
    split
    · simp
    · exact Nat.le_trans ih (Nat.le_succ _)

-- As many steps as there are lines are enough: every nested call and every
-- continuation has fewer lines to read.
theorem pieces_fuel (holds : Text → Bool) (enough : lines.length ≤ fuel) :
    piecesLoop holds fuel lines = pieces holds lines := by
  unfold pieces
  induction fuel using Nat.strongRecOn generalizing lines with
  | ind fuel ih =>
    cases lines with
    | nil => cases fuel <;> rfl
    | cons line rest =>
      cases fuel with
      | zero => cases enough
      | succ fuel =>
        have room : rest.length ≤ fuel := Nat.le_of_succ_le_succ enough
        have same : ∀ shorter : List Text, shorter.length ≤ rest.length →
            piecesLoop holds fuel shorter = piecesLoop holds rest.length shorter := by
          intro shorter short
          rw [ih fuel (Nat.lt_succ_self _) (Nat.le_trans short room)]
          by_cases equal : rest.length = fuel
          · rw [equal,ih fuel (Nat.lt_succ_self _) (Nat.le_trans short room)]
          · exact (ih rest.length (by omega) short).symm
        have branches := branch_length line rest
        have dropped : ((line :: rest).drop (findEndIfIndex (line :: rest) 0 + 1)).length ≤ rest.length := by
          simp only [List.length_drop,List.length_cons]; omega
        have chosen : (if holds (conditionOf line) then (parseConditionalBlock (line :: rest) 0).ifLines
            else (parseConditionalBlock (line :: rest) 0).elseLines).length ≤ rest.length := by
          split
          · exact branches.1
          · exact branches.2
        show piecesLoop holds (fuel+1) (line :: rest) = piecesLoop holds (rest.length+1) (line :: rest)
        unfold piecesLoop
        dsimp only
        rw [same _ chosen,same _ dropped,same _ (Nat.le_refl _),same _ (skip_length rest)]

-- The abstract document of a list of lines, case by case; fuel no longer shows.
theorem pieces_cons (holds : Text → Bool) (line : Text) (rest : List Text) :
    pieces holds (line :: rest) =
      if starts line .If then
        pieces holds (if holds (conditionOf line) then (parseConditionalBlock (line :: rest) 0).ifLines
          else (parseConditionalBlock (line :: rest) 0).elseLines) ++
          pieces holds ((line :: rest).drop (findEndIfIndex (line :: rest) 0 + 1))
      else if starts line .Include then .inclusion (includePathOf line) :: pieces holds rest
      else if starts line .Safari then pieces holds (skipSafari rest)
      else if equals line .Else || equals line .EndIf then pieces holds rest
      else .line line :: pieces holds rest := by
  have branches := branch_length line rest
  have chosen : (if holds (conditionOf line) then (parseConditionalBlock (line :: rest) 0).ifLines
      else (parseConditionalBlock (line :: rest) 0).elseLines).length ≤ rest.length := by
    split
    · exact branches.1
    · exact branches.2
  have dropped : ((line :: rest).drop (findEndIfIndex (line :: rest) 0 + 1)).length ≤ rest.length := by
    simp only [List.length_drop,List.length_cons]; omega
  show piecesLoop holds (rest.length+1) (line :: rest) = _
  unfold piecesLoop
  dsimp only
  rw [pieces_fuel holds chosen,pieces_fuel holds dropped,pieces_fuel holds (skip_length rest)]
  rfl

theorem directives_pieces (env : Environment σ) (lines : List Text) (s : σ) :
    processDirectives env lines s = runPieces env (pieces env.evaluateCondition lines) s :=
  process_pieces env lines.length lines s

-- Only plain lines are kept, in whatever way the blocks nest or fail to.
theorem kept_plain (kept : .line text ∈ piecesLoop holds fuel lines) : Plain text := by
  induction fuel generalizing lines with
  | zero => cases kept
  | succ fuel ih =>
    cases lines with
    | nil => cases kept
    | cons line rest =>
      unfold piecesLoop at kept
      dsimp only at kept
      split at kept
      · rcases List.mem_append.mp kept with inner | after
        · exact ih inner
        · exact ih after
      · rename_i notIf
        split at kept
        · rcases List.mem_cons.mp kept with same | after
          · cases same
          · exact ih after
        · rename_i notInclude
          split at kept
          · exact ih kept
          · rename_i notSafari
            split at kept
            · exact ih kept
            · rename_i notEither
              have neither : equals line .Else = false ∧ equals line .EndIf = false := by simpa using notEither
              rcases List.mem_cons.mp kept with same | after
              · cases same
                exact ⟨by simpa using notIf,by simpa using notInclude,by simpa using notSafari,neither.1,neither.2⟩
              · exact ih after

theorem parse_close (closed : Writes .EndIf tail) (inElse : Bool) (i : Nat) (block : ConditionalBlock)
    (lines : List Text) : parseLoop 1 inElse i block (tail :: lines) = (block,i+1) := by
  have last : starts tail .If = false := writes_starts closed (by decide)
  have endif := writes_equals closed
  simp only [parseLoop,last,endif,Bool.false_eq_true,if_false,if_true,Nat.lt_irrefl]
  cases lines <;> rfl

theorem parse_divide (divided : Writes .Else middle) (inElse : Bool) (i : Nat) (block : ConditionalBlock)
    (lines : List Text) : parseLoop 1 inElse i block (middle :: lines) = parseLoop 1 true (i+1) block lines := by
  have mid : starts middle .If = false := writes_starts divided (by decide)
  have midEnd : equals middle .EndIf = false := writes_differs divided (by decide)
  have midElse := writes_equals divided
  simp only [parseLoop,mid,midEnd,midElse,Bool.false_eq_true,if_false,BEq.rfl,Bool.and_self,if_true]

theorem parse_block (inner : Prints marks thens body) (closed : Writes .EndIf tail) (head : Text) (lines : List Text) :
    parseFrom (head :: (body ++ tail :: lines)) 0 = (⟨conditionOf head,body,[]⟩,body.length+2) := by
  rw [parseFrom,List.drop_succ_cons,List.drop_zero,parse_document inner,parse_close closed]
  simp; omega

theorem parse_branch (inner : Prints marks thens body) (divided : Writes .Else middle)
    (other : Prints marks elses alternative) (closed : Writes .EndIf tail) (head : Text) (lines : List Text) :
    parseFrom (head :: (body ++ middle :: (alternative ++ tail :: lines))) 0 =
      (⟨conditionOf head,body,alternative⟩,body.length+alternative.length+3) := by
  rw [parseFrom,List.drop_succ_cons,List.drop_zero,parse_document inner,parse_divide divided,
    parse_document other,parse_close closed]
  simp; omega

-- Decided block by block, a well-nested document keeps exactly its flattening.
theorem pieces_document (printed : Prints marks document lines) (holds : Text → Bool) :
    pieces holds lines = (document.flatten fun condition => holds (trim condition)).map .line := by
  induction printed with
  | done => rfl
  | leaf plain after ih =>
    obtain ⟨notIf,notInclude,notSafari,notElse,notEnd⟩ := plain
    simp [pieces_cons,notIf,notInclude,notSafari,notElse,notEnd,ih,Document.flatten]
  | @block key head thens body tail after lines opened inner closed remaining ihInner ihAfter =>
    obtain ⟨first,condition⟩ := opens_trim opened
    have parsed := parse_block inner closed head lines
    have found : findEndIfIndex (head :: (body ++ tail :: lines)) 0 + 1 = body.length+2 := by
      rw [← same_span (by simp),parsed]
    have dropped : (head :: (body ++ tail :: lines)).drop (body.length+2) = lines := by simp
    rw [pieces_cons,if_pos first,found,dropped,parseConditionalBlock,parsed,condition,ihAfter,Document.flatten]
    by_cases chosen : holds (trim key) = true
    · simp [chosen,ihInner]
    · simp [chosen,pieces,piecesLoop]
  | @branch key head thens body middle elses alternative tail after lines opened inner divided other closed remaining ihInner ihOther ihAfter =>
    obtain ⟨first,condition⟩ := opens_trim opened
    have parsed := parse_branch inner divided other closed head lines
    have found : findEndIfIndex (head :: (body ++ middle :: (alternative ++ tail :: lines))) 0 + 1 =
        body.length+alternative.length+3 := by rw [← same_span (by simp),parsed]
    have dropped : (head :: (body ++ middle :: (alternative ++ tail :: lines))).drop (body.length+alternative.length+3) =
        lines := by
      have regroup : head :: (body ++ middle :: (alternative ++ tail :: lines)) =
          (head :: body ++ middle :: alternative ++ [tail]) ++ lines := by simp
      rw [regroup]
      exact List.drop_left' (by simp; omega)
    rw [pieces_cons,if_pos first,found,dropped,parseConditionalBlock,parsed,condition,ihAfter,Document.flatten]
    by_cases chosen : holds (trim key) = true
    · simp [chosen,ihInner]
    · simp [chosen,ihOther]

theorem run_lines (env : Environment σ) (lines : List Text) (s : σ) :
    runPieces env (lines.map .line) s = (.ok lines,s) := by
  induction lines with
  | nil => rfl
  | cons line rest ih => simp [runPieces,Outcome.andThen,ih]

theorem process_document (env : Environment σ) (printed : Prints marks document lines) (s : σ) :
    processDirectives env lines s =
      (.ok (document.flatten fun condition => env.evaluateCondition (trim condition)),s) := by
  rw [directives_pieces,pieces_document printed,run_lines]

-- What an include line adds comes from a nested download that succeeded.
theorem includeBranch_lines (ran : includeBranch env path s = (.ok lines,after)) (some : line ∈ lines) :
    ∃ resolvedPath, env.resolveIncludePath path = .ok resolvedPath ∧
      env.downloadInternal resolvedPath s = (.ok lines,after) := by
  unfold includeBranch at ran
  split at ran
  · cases ran
  · rename_i resolvedPath resolved
    split at ran
    · rename_i downloaded
      cases ran
      exact ⟨resolvedPath,resolved,downloaded⟩
    · cases ran; cases some

-- Whatever lines come in, a directive line never comes out, provided none comes
-- out of the included documents.
theorem run_plain (env : Environment σ)
    (included : ∀ path s lines after, env.downloadInternal path s = (.ok lines,after) → ∀ line ∈ lines, Plain line)
    (items : List Piece) (kept : ∀ text, .line text ∈ items → Plain text)
    (ran : runPieces env items s = (.ok lines,after)) : ∀ line ∈ lines, Plain line := by
  induction items generalizing s lines after with
  | nil => cases ran; intro line member; cases member
  | cons item rest ih =>
    have tail : ∀ text, .line text ∈ rest → Plain text := fun text member => kept text (List.mem_cons_of_mem _ member)
    cases item with
    | line text =>
      obtain ⟨one,middle,more,first,next,rfl⟩ := (andThen_ok _ _).mp ran
      cases first
      intro line member
      rcases List.mem_append.mp member with own | old
      · rw [List.mem_singleton.mp own]; exact kept text (by simp)
      · exact ih tail next line old
    | inclusion path =>
      obtain ⟨one,middle,more,first,next,rfl⟩ := (andThen_ok _ _).mp ran
      intro line member
      rcases List.mem_append.mp member with new | old
      · obtain ⟨_,_,downloaded⟩ := includeBranch_lines first new
        exact included _ _ _ _ downloaded line new
      · exact ih tail next line old

theorem directives_plain (env : Environment σ)
    (included : ∀ path s lines after, env.downloadInternal path s = (.ok lines,after) → ∀ line ∈ lines, Plain line)
    (ran : processDirectives env lines s = (.ok out,after)) : ∀ line ∈ out, Plain line := by
  rw [directives_pieces] at ran
  exact run_plain env included _ (fun _ member => kept_plain member) ran

end AdblockCompiler.Preprocessor
