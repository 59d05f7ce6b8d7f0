import AdblockCompiler.Downloader
import AdblockCompiler.Hosts

namespace AdblockCompiler.Evaluation
open JsText NestedBlocks Preprocessor

structure ConditionalBlock extends Preprocessor.ConditionalBlock where
  endIndex : Nat
  deriving DecidableEq, Repr

-- The while loop of parseConditionalBlock, on the lines not read yet: none when
-- it runs off the end of the lines inside the block.
def parseLoop : Nat → Bool → Nat → Preprocessor.ConditionalBlock → List Text → Option ConditionalBlock
  | 0,_,i,block,_ => some ⟨block,i⟩
  | _+1,_,_,_,[] => none
  | depth+1,inElse,i,block,line :: rest =>
    if starts line .If then parseLoop (depth+2) inElse (i+1) (block.push inElse line) rest
    else if starts line .EndIf then
      if depth = 0 then some ⟨block,i⟩ else parseLoop depth inElse (i+1) (block.push inElse line) rest
    else if starts line .Else && depth == 0 then parseLoop (depth+1) true (i+1) block rest
    else parseLoop (depth+1) inElse (i+1) (block.push inElse line) rest

def unmatched (startIndex : Nat) : Thrown := "Unmatched !#if directive at line ".toList ++ Hosts.decimal (startIndex+1)

-- line is the one at startIndex, rest what follows it.
def parseConditionalBlock (startIndex : Nat) (line : Text) (rest : List Text) : Except Thrown ConditionalBlock :=
  match parseLoop 1 false (startIndex+1) ⟨conditionOf line,[],[]⟩ rest with
  | some block => .ok block
  | none => .error (unmatched startIndex)

-- σ is what the include loader keeps between its calls.
structure PreprocessorEvaluator (σ : Type) where
  platform : Option Text
  includeLoader : Option (Text → σ → Outcome σ)

-- The catch clause around the whole of process.
def rethrown : Outcome σ → Outcome σ
  | (.ok lines,s) => (.ok lines,s)
  | (.error message,s) => (.error ("Preprocessor evaluation failed: ".toList ++ message),s)

section Process
variable (evaluate : Text → Bool) (includeLoader : Option (Text → σ → Outcome σ))

def includeLines (includePath : Text) (s : σ) : Outcome σ :=
  match includeLoader with
  | none => (.ok [],s)
  | some load =>
    match load includePath s with
    | (.ok included,s) => (.ok included,s)
    | (.error _,s) => (.ok [],s)

-- The while loop of process on the lines from index i on. The first number
-- bounds the steps; running out of them counts as an error, so that a call that
-- resolves had enough.
def processLoop : Nat → Nat → List Text → σ → Outcome σ
  | _,_,[],s => (.ok [],s)
  | 0,_,_ :: _,s => (.error [],s)
  | fuel+1,i,line :: rest,s =>
    if starts line .If then
      match parseConditionalBlock i line rest with
      | .error thrown => (.error thrown,s)
      | .ok block =>
        let processed : Outcome σ :=
          if evaluate (conditionOf line) then rethrown (processLoop fuel 0 block.ifLines s)
          else if block.elseLines.length > 0 then rethrown (processLoop fuel 0 block.elseLines s)
          else (.ok [],s)
        processed.andThen (processLoop fuel (block.endIndex+1) ((line :: rest).drop (block.endIndex+1-i)))
    else if starts line .Include then
      (includeLines includeLoader (includePathOf line) s).andThen (processLoop fuel (i+1) rest)
    else if starts line .Safari then
      processLoop fuel (i+1+(rest.length-(skipSafari rest).length)) (skipSafari rest) s
    else Outcome.andThen (.ok [line],s) (processLoop fuel (i+1) rest)

end Process

def process (newFunction : Text → Option Bool) (toLowerCase : Text → Text) (evaluator : PreprocessorEvaluator σ) (lines : List Text)
    (s : σ) : Outcome σ :=
  rethrown (processLoop (fun condition => Conditions.ConditionalEvaluator.evaluate newFunction toLowerCase condition evaluator.platform)
    evaluator.includeLoader lines.length 0 lines s)

-- The loop of validate: the depth it ends with, none where it leaves at an
-- !#endif without an !#if.
def depthAfter : Nat → List Text → Option Nat
  | depth,[] => some depth
  | depth,line :: rest =>
    if starts line .If then depthAfter (depth+1) rest
    else if starts line .EndIf then
      match depth with
      | 0 => none
      | depth+1 => depthAfter depth rest
    else depthAfter depth rest

def validate (lines : List Text) : Bool := depthAfter 0 lines == some 0

theorem depthAfter_append (depth : Nat) (first second : List Text) :
    depthAfter depth (first ++ second) = (depthAfter depth first).bind fun depth => depthAfter depth second := by
  induction first generalizing depth with
  | nil => rfl
  | cons line rest ih =>
    simp only [List.cons_append,depthAfter]
    split
    · exact ih (depth+1)
    · split
      · cases depth with
        | zero => rfl
        | succ depth => exact ih depth
      · exact ih depth

-- Lines from which the count goes down to nothing from some depth: what is left
-- of validated lines wherever one stops reading them.
def Closing (lines : List Text) : Prop := ∃ depth, depthAfter depth lines = some 0

theorem closing_rest (closing : Closing (first ++ second)) : Closing second := by
  obtain ⟨depth,ends⟩ := closing
  rw [depthAfter_append,Option.bind_eq_some_iff] at ends
  obtain ⟨between,-,after⟩ := ends
  exact ⟨between,after⟩

theorem closing_tail (closing : Closing (line :: rest)) : Closing rest := @closing_rest [line] rest closing

theorem skipSafari_suffix (lines : List Text) : ∃ skipped, lines = skipped ++ skipSafari lines := by
  induction lines with
  | nil => exact ⟨[],rfl⟩
  | cons line rest ih =>
    unfold skipSafari
    split
    · exact ⟨[line],rfl⟩
    · obtain ⟨skipped,same⟩ := ih
      exact ⟨line :: skipped,congrArg (line :: ·) same⟩

-- The branch that is being read goes `depth` blocks deep; the other is whole.
structure Reading (depth : Nat) (inElse : Bool) (block : Preprocessor.ConditionalBlock) : Prop where
  thens : depthAfter 0 block.ifLines = some (if inElse then 0 else depth)
  elses : depthAfter 0 block.elseLines = some (if inElse then depth else 0)

theorem reading_push (reading : Reading depth inElse block) (counted : depthAfter depth [line] = some after) :
    Reading after inElse (block.push inElse line) := by
  obtain ⟨thens,elses⟩ := reading
  cases inElse with
  | true => exact ⟨thens,by simp [ConditionalBlock.push,depthAfter_append,elses,counted]⟩
  | false => exact ⟨by simp [ConditionalBlock.push,depthAfter_append,thens,counted],elses⟩

-- Inside a block, lines that count down below its depth hold its end, and what
-- stands between is whole again, branch by branch.
theorem parse_closing (depth outer : Nat) (inElse : Bool) (i : Nat) (block : Preprocessor.ConditionalBlock) (lines : List Text)
    (reading : Reading depth inElse block) (ends : depthAfter (depth+1+outer) lines = some 0) :
    ∃ found, parseLoop (depth+1) inElse i block lines = some found ∧ validate found.ifLines = true ∧
      validate found.elseLines = true ∧ i ≤ found.endIndex ∧ Closing (lines.drop (found.endIndex+1-i)) := by
  induction lines generalizing depth inElse i block with
  | nil =>
    simp only [depthAfter,Option.some.injEq] at ends
    omega
  | cons line rest ih =>
    have shift (found : ConditionalBlock) (after : i+1 ≤ found.endIndex) :
        (line :: rest).drop (found.endIndex+1-i) = rest.drop (found.endIndex+1-(i+1)) := by
      have index : found.endIndex+1-i = found.endIndex+1-(i+1)+1 := by omega
      rw [index,List.drop_succ_cons]
    have further (next : Nat) (inElse : Bool) (block : Preprocessor.ConditionalBlock) (reading : Reading next inElse block)
        (ends : depthAfter (next+1+outer) rest = some 0) :
        ∃ found, parseLoop (next+1) inElse (i+1) block rest = some found ∧ validate found.ifLines = true ∧
          validate found.elseLines = true ∧ i ≤ found.endIndex ∧ Closing ((line :: rest).drop (found.endIndex+1-i)) := by
      obtain ⟨found,parsed,thens,elses,after,closing⟩ := ih next inElse (i+1) block reading ends
      exact ⟨found,parsed,thens,elses,Nat.le_of_succ_le after,by rw [shift found after]; exact closing⟩
    by_cases opens : starts line .If = true
    · simp only [parseLoop,depthAfter,opens,if_true] at ends ⊢
      refine further (depth+1) inElse _ (reading_push reading (by simp [depthAfter,opens])) ?_
      rw [show depth+1+1+outer = depth+1+outer+1 by omega]
      exact ends
    · by_cases closes : starts line .EndIf = true
      · rw [show depth+1+outer = depth+outer+1 by omega] at ends
        simp only [parseLoop,depthAfter,opens,closes,if_true,Bool.false_eq_true,if_false] at ends ⊢
        cases depth with
        | zero =>
          rw [if_pos rfl]
          refine ⟨_,rfl,?_,?_,Nat.le_refl i,?_⟩
          · rw [validate,beq_iff_eq]
            simpa using reading.thens
          · rw [validate,beq_iff_eq]
            simpa using reading.elses
          · exact ⟨0+outer,by simpa using ends⟩
        | succ depth =>
          rw [if_neg (Nat.succ_ne_zero depth)]
          exact further depth inElse _ (reading_push reading (by simp [depthAfter,opens,closes])) ends
      · simp only [parseLoop,depthAfter,opens,closes,Bool.false_eq_true,if_false] at ends ⊢
        split
        · -- an !#else of this block: the branch before it is whole
          rename_i divides
          have top : depth = 0 := by simpa using (Bool.and_eq_true_iff.mp divides).2
          subst top
          refine further 0 true block ⟨?_,?_⟩ ends
          · simpa using reading.thens
          · simpa using reading.elses
        · exact further depth inElse _ (reading_push reading (by simp [depthAfter,opens,closes])) ends

@[simp] theorem rethrown_ok (lines : List Text) (s : σ) : rethrown (.ok lines,s) = (.ok lines,s) := rfl

theorem rethrown_exact (ran : rethrown outcome = (.ok lines,s)) : outcome = (.ok lines,s) := by
  obtain ⟨result,after⟩ := outcome
  cases result with
  | ok out => exact ran
  | error thrown => cases ran

-- A step that resolves and a rest that resolves wherever it starts.
theorem resolves_andThen (first : ∃ out after, (ran : Outcome σ) = (.ok out,after))
    (next : ∀ s, ∃ out after, (rest s : Outcome σ) = (.ok out,after)) : ∃ out after, ran.andThen rest = (.ok out,after) := by
  obtain ⟨one,middle,rfl⟩ := first
  obtain ⟨more,after,ran⟩ := next middle
  exact ⟨one ++ more,after,(andThen_ok _ _).mpr ⟨one,middle,more,rfl,ran,rfl⟩⟩

theorem include_resolves (includeLoader : Option (Text → σ → Outcome σ)) (path : Text) (s : σ) :
    ∃ out after, includeLines includeLoader path s = (.ok out,after) := by
  cases includeLoader with
  | none => exact ⟨[],s,rfl⟩
  | some load =>
    simp only [includeLines]
    cases loaded : load path s with
    | mk result after =>
      cases result with
      | ok included => exact ⟨included,after,rfl⟩
      | error thrown => exact ⟨[],after,rfl⟩

theorem parse_length (parsed : parseLoop (depth+1) inElse i block lines = some found) :
    found.ifLines.length + found.elseLines.length < block.ifLines.length + block.elseLines.length + lines.length := by
  induction lines generalizing depth inElse i block with
  | nil => cases parsed
  | cons line rest ih =>
    have pushed := push_length block inElse line
    unfold parseLoop at parsed
    split at parsed
    · have := ih parsed
      simp only [List.length_cons] at *; omega
    · split at parsed
      · split at parsed
        · cases parsed
          simp only [List.length_cons]; omega
        · rename_i inside
          obtain ⟨outer,rfl⟩ := Nat.exists_eq_succ_of_ne_zero inside
          have := ih parsed
          simp only [List.length_cons] at *; omega
      · split at parsed
        · have := ih parsed
          simp only [List.length_cons] at *; omega
        · have := ih parsed
          simp only [List.length_cons] at *; omega

theorem closing_validated (valid : validate lines = true) : Closing lines := ⟨0,by simpa [validate] using valid⟩

theorem loop_resolves (evaluate : Text → Bool) (includeLoader : Option (Text → σ → Outcome σ)) (closing : Closing lines)
    (enough : lines.length ≤ fuel) (i : Nat) (s : σ) :
    ∃ out after, processLoop evaluate includeLoader fuel i lines s = (.ok out,after) := by
  induction fuel generalizing lines i s with
  | zero =>
    rw [List.eq_nil_of_length_eq_zero (Nat.le_zero.mp enough)]
    exact ⟨[],s,rfl⟩
  | succ fuel ih =>
    cases lines with
    | nil => exact ⟨[],s,rfl⟩
    | cons line rest =>
      have room : rest.length ≤ fuel := Nat.le_of_succ_le_succ enough
      have onward := closing_tail closing
      simp only [processLoop]
      split
      · rename_i opens
        obtain ⟨depth,ends⟩ := closing
        simp only [depthAfter,opens,if_true] at ends
        rw [show depth+1 = 0+1+depth by omega] at ends
        obtain ⟨found,parsed,thens,elses,after,remaining⟩ :=
          parse_closing 0 depth false (i+1) ⟨conditionOf line,[],[]⟩ rest ⟨rfl,rfl⟩ ends
        have shorter := parse_length parsed
        simp only [List.length_nil,Nat.zero_add] at shorter
        have dropped : (line :: rest).drop (found.endIndex+1-i) = rest.drop (found.endIndex+1-(i+1)) := by
          have index : found.endIndex+1-i = found.endIndex+1-(i+1)+1 := by omega
          rw [index,List.drop_succ_cons]
        simp only [parseConditionalBlock,parsed]
        refine resolves_andThen ?_ fun s => ?_
        · split
          · obtain ⟨out,after,ran⟩ := ih (closing_validated thens) (by omega) 0 s
            exact ⟨out,after,by rw [ran,rethrown_ok]⟩
          · split
            · obtain ⟨out,after,ran⟩ := ih (closing_validated elses) (by omega) 0 s
              exact ⟨out,after,by rw [ran,rethrown_ok]⟩
            · exact ⟨[],s,rfl⟩
        · rw [dropped]
          exact ih remaining (Nat.le_trans (by simp) room) _ s
      · split
        · exact resolves_andThen (include_resolves includeLoader _ s) fun s => ih onward room _ s
        · split
          · -- a skipped block may hold directives: what follows it still closes
            obtain ⟨skipped,same⟩ := skipSafari_suffix rest
            rw [same] at onward
            exact ih (closing_rest onward) (Nat.le_trans (skip_length rest) room) _ s
          · exact resolves_andThen ⟨[line],s,rfl⟩ fun s => ih onward room _ s

-- Lines that validate are processed to the end, for every platform and whatever
-- the include loader does.
theorem validated_resolves (newFunction : Text → Option Bool) (toLowerCase : Text → Text)
    (evaluator : PreprocessorEvaluator σ) (valid : validate lines = true) (s : σ) :
    ∃ out after, process newFunction toLowerCase evaluator lines s = (.ok out,after) := by
  obtain ⟨out,after,ran⟩ := loop_resolves (fun condition =>
      Conditions.ConditionalEvaluator.evaluate newFunction toLowerCase condition evaluator.platform)
    evaluator.includeLoader (closing_validated valid) (Nat.le_refl _) 0 s
  exact ⟨out,after,by rw [process,ran,rethrown_ok]⟩

-- Two !#else lines, an include that is rejected, and a safari block that takes
-- the !#if of the !#endif after it.
def tangled : List Text :=
  ["!#if mac","!#else","!#include a.txt","!#else","||x^","!#endif","!#safari_cb_affinity(all)","!#if (","!#safari_cb_affinity",
    "||y^","!#endif"].map String.toList

theorem tangled_resolves : ∃ out after,
    process (fun _ => none) lowerCase ⟨some "mac".toList,some fun path (calls : Nat) => (.error path,calls+1)⟩ tangled 0 = (.ok out,after) :=
  validated_resolves _ _ _ (by decide) 0

-- What both preprocessors make of the same lines.
section Alike

-- A line on which looking for a directive at its start and comparing the whole
-- line with it give the same answer.
structure Exact (line : Text) : Prop where
  divides : starts line .Else = equals line .Else
  closes : starts line .EndIf = equals line .EndIf
  plain : starts line .Include = false

-- The two loops may count their lines from different indices, here i and j.
theorem parse_alike (exact : ∀ line ∈ lines, Exact line) (parsed : parseLoop (depth+1) inElse i block lines = some found) (j : Nat) :
    Preprocessor.parseLoop (depth+1) inElse j block lines = (found.toConditionalBlock,found.endIndex+1+j-i) := by
  induction lines generalizing depth inElse i j block with
  | nil => cases parsed
  | cons line rest ih =>
    have own := exact line List.mem_cons_self
    have onward {depth : Nat} {inElse : Bool} {block : Preprocessor.ConditionalBlock}
        (parsed : parseLoop (depth+1) inElse (i+1) block rest = some found) :
        Preprocessor.parseLoop (depth+1) inElse (j+1) block rest = (found.toConditionalBlock,found.endIndex+1+j-i) := by
      rw [ih (fun other member => exact other (List.mem_cons_of_mem line member)) parsed (j+1),← Nat.add_assoc,Nat.add_sub_add_right]
    unfold parseLoop at parsed
    rw [own.closes,own.divides] at parsed
    unfold Preprocessor.parseLoop
    split
    · rename_i opens
      rw [if_pos opens] at parsed
      exact onward parsed
    · rename_i opens
      rw [if_neg opens] at parsed
      split
      · rename_i closes
        rw [if_pos closes] at parsed
        cases depth with
        | zero =>
          cases parsed
          have index : i+1+j-i = j+1 := by omega
          cases rest <;> simp [Preprocessor.parseLoop,index]
        | succ depth => exact onward parsed
      · rename_i closes
        rw [if_neg closes] at parsed
        split
        · rename_i divides
          rw [if_pos divides] at parsed
          exact onward parsed
        · rename_i divides
          rw [if_neg divides] at parsed
          exact onward parsed

def Has (block : Preprocessor.ConditionalBlock) (text : Text) : Prop := text ∈ block.ifLines ∨ text ∈ block.elseLines

theorem push_has (block : Preprocessor.ConditionalBlock) (inElse : Bool) (line : Text) :
    Has (block.push inElse line) text ↔ Has block text ∨ text = line := by
  cases inElse with
  | true => simp [Has,ConditionalBlock.push,or_assoc]
  | false => simp [Has,ConditionalBlock.push,or_right_comm]

theorem parse_has (parsed : parseLoop (depth+1) inElse i block lines = some found) (inside : Has found.toConditionalBlock text) :
    Has block text ∨ text ∈ lines := by
  induction lines generalizing depth inElse i block with
  | nil => cases parsed
  | cons line rest ih =>
    have pushed (later : Has (block.push inElse line) text ∨ text ∈ rest) : Has block text ∨ text ∈ line :: rest := by
      rw [push_has] at later
      rw [List.mem_cons]
      tauto
    unfold parseLoop at parsed
    split at parsed
    · exact pushed (ih parsed)
    · split at parsed
      · split at parsed
        · cases parsed
          exact .inl inside
        · rename_i deep
          obtain ⟨outer,rfl⟩ := Nat.exists_eq_succ_of_ne_zero deep
          exact pushed (ih parsed)
      · split at parsed
        · rcases ih parsed with old | later
          · exact .inl old
          · exact .inr (List.mem_cons_of_mem line later)
        · exact pushed (ih parsed)

def stray (line : Text) : Bool := equals line .Else || equals line .EndIf

-- Where the evaluator resolves, the other preprocessor keeps the same lines but
-- for the !#else and !#endif lines that belong to no block.
theorem process_pieces (holds : Text → Bool) (includeLoader : Option (Text → σ → Outcome σ)) (exact : ∀ line ∈ lines, Exact line)
    (ran : processLoop holds includeLoader fuel i lines s = (.ok out,after)) :
    pieces holds lines = (out.filter fun line => !stray line).map .line := by
  induction fuel generalizing lines i s out after with
  | zero =>
    cases lines with
    | nil => cases ran; rfl
    | cons line rest => cases ran
  | succ fuel ih =>
    cases lines with
    | nil => cases ran; rfl
    | cons line rest =>
      have others := fun other member => exact other (List.mem_cons_of_mem line member)
      simp only [processLoop,(exact line List.mem_cons_self).plain,Bool.false_eq_true,if_false] at ran
      rw [pieces_cons,(exact line List.mem_cons_self).plain]
      split
      · rename_i opens
        rw [if_pos opens] at ran
        cases parsed : parseLoop 1 false (i+1) ⟨conditionOf line,[],[]⟩ rest with
        | none => simp [parseConditionalBlock,parsed] at ran
        | some block =>
          simp only [parseConditionalBlock,parsed] at ran
          obtain ⟨one,middle,more,first,next,rfl⟩ := (andThen_ok _ _).mp ran
          have alike := parse_alike others parsed 1
          have read : parseFrom (line :: rest) 0 = (block.toConditionalBlock,block.endIndex+1-i) := by
            rw [parseFrom,List.drop_succ_cons,List.drop_zero]
            rw [Nat.add_sub_add_right] at alike
            exact alike
          have inside (text : Text) (has : Has block.toConditionalBlock text) : Exact text := by
            rcases parse_has parsed has with old | later
            · simp [Has] at old
            · exact others text later
          have dropped : ∀ text ∈ (line :: rest).drop (block.endIndex+1-i), Exact text :=
            fun text member => exact text (List.mem_of_mem_drop member)
          rw [← same_span (Nat.succ_pos _),Preprocessor.parseConditionalBlock,read,ih dropped next,List.filter_append,List.map_append]
          congr 1
          split at first
          · rename_i chosen
            rw [if_pos chosen]
            exact ih (fun text member => inside text (.inl member)) (rethrown_exact first)
          · rename_i other
            rw [if_neg other]
            split at first
            · exact ih (fun text member => inside text (.inr member)) (rethrown_exact first)
            · rename_i none
              cases first
              rw [List.eq_nil_of_length_eq_zero (Nat.eq_zero_of_not_pos none)]
              rfl
      · rename_i opens
        rw [if_neg opens] at ran
        rw [if_neg Bool.false_ne_true]
        split
        · rename_i safari
          rw [if_pos safari] at ran
          obtain ⟨skipped,same⟩ := skipSafari_suffix rest
          refine ih (fun text member => others text ?_) ran
          rw [same]
          exact List.mem_append_right skipped member
        · rename_i safari
          rw [if_neg safari] at ran
          obtain ⟨one,middle,more,first,next,rfl⟩ := (andThen_ok _ _).mp ran
          cases first
          rw [ih others next,List.singleton_append]
          split
          · rename_i gone
            rw [List.filter_cons_of_neg (by rw [stray,gone]; decide)]
          · rename_i kept
            have regular : stray line = false := Bool.eq_false_iff.mpr kept
            rw [List.filter_cons_of_pos (by rw [regular]; rfl),List.map_cons]

end Alike

-- Documents with safari blocks: a block is one item of several lines.
inductive Segment where
  | line (text : Text)
  | safari (head : Text) (body : List Text) (last : Text)
  deriving DecidableEq, Repr

def Segment.lines : Segment → List Text
  | .line text => [text]
  | .safari head body last => head :: (body ++ [last])

def Segment.kept : Segment → List Text
  | .line text => [text]
  | .safari _ _ _ => []

def Regular (line : Text) : Prop := ∀ directive, starts line directive = false

def Segment.Regular : Segment → Prop
  | .line text => Evaluation.Regular text
  | .safari head body last => starts head .Safari = true ∧ (∀ line ∈ body, Evaluation.Regular line) ∧ Writes .Safari last

def Segment.Is (P : Text → Prop) (segment : Segment) : Prop := ∃ text, segment = .line text ∧ P text

def segmentMarks : Marks Text Segment :=
  ⟨fun condition => Segment.Is (Opens condition),Segment.Is (Writes .Else),Segment.Is (Writes .EndIf),Segment.Regular⟩

def printed (segments : List Segment) : List Text := segments.flatMap Segment.lines

section Documents

theorem directives_apart (differ : one ≠ other) : startsWith one.text (DirectiveType.text other) = false := by
  cases one <;> cases other <;> first | exact absurd rfl differ | decide

theorem starts_only (first : starts line directive = true) (differ : directive ≠ other) : starts line other = false := by
  by_contra both
  have second : starts line other = true := by simpa using both
  simp only [starts,startsWith,List.isPrefixOf_iff_prefix] at first second
  rcases List.prefix_or_prefix_of_prefix first second with long | short
  · have apart := directives_apart differ.symm
    rw [startsWith,List.isPrefixOf_iff_prefix.mpr long] at apart
    cases apart
  · have apart := directives_apart differ
    rw [startsWith,List.isPrefixOf_iff_prefix.mpr short] at apart
    cases apart

theorem equals_starts (same : equals line directive = true) : starts line directive = true := by
  rw [starts,eq_of_beq same]
  simpa using startsWith_append directive.text []

theorem writes_starting (written : Writes directive line) : starts line directive = true :=
  equals_starts (writes_equals written)

theorem exact_apart (notElse : starts line .Else = false) (notEnd : starts line .EndIf = false)
    (notInclude : starts line .Include = false) : Exact line := by
  have differs {directive : DirectiveType} (apart : starts line directive = false) : starts line directive = equals line directive := by
    rw [apart]
    by_contra same
    have whole : equals line directive = true := by simpa using same
    rw [equals_starts whole] at apart
    cases apart
  exact ⟨differs notElse,differs notEnd,notInclude⟩

theorem exact_starts (first : starts line directive = true) (notElse : directive ≠ .Else) (notEnd : directive ≠ .EndIf)
    (notInclude : directive ≠ .Include) : Exact line :=
  exact_apart (starts_only first notElse) (starts_only first notEnd) (starts_only first notInclude)

theorem exact_writes (written : Writes directive line) (notInclude : directive ≠ .Include) : Exact line := by
  have same (other : DirectiveType) : starts line other = equals line other := by
    by_cases differ : directive = other
    · rw [← differ,writes_starting written,writes_equals written]
    · rw [starts_only (writes_starting written) differ,writes_differs written differ]
  exact ⟨same .Else,same .EndIf,starts_only (writes_starting written) notInclude⟩

theorem exact_regular (regular : Regular line) : Exact line := exact_apart (regular .Else) (regular .EndIf) (regular .Include)

theorem exact_printed (prints : Prints segmentMarks document segments) : ∀ line ∈ printed segments, Exact line := by
  induction prints with
  | done => exact fun line member => absurd member List.not_mem_nil
  | @leaf item rest lines plain after ih =>
    intro line member
    rcases List.mem_append.mp member with own | later
    · cases item with
      | line text =>
        cases List.mem_singleton.mp own
        exact exact_regular plain
      | safari head body last =>
        obtain ⟨opened,inner,closed⟩ := plain
        rcases List.mem_cons.mp own with rfl | own
        · exact exact_starts opened (by decide) (by decide) (by decide)
        · rcases List.mem_append.mp own with inside | end_
          · exact exact_regular (inner line inside)
          · cases List.mem_singleton.mp end_
            exact exact_writes closed (by decide)
    · exact ih line later
  | block opened inner closed after ihInner ihAfter =>
    obtain ⟨head,rfl,opened⟩ := opened
    obtain ⟨last,rfl,closed⟩ := closed
    intro line member
    simp only [printed,List.flatMap_cons,List.flatMap_append,Segment.lines,List.mem_append,List.mem_singleton] at member
    rcases member with rfl | inside | rfl | later
    · exact exact_starts (opens_trim opened).1 (by decide) (by decide) (by decide)
    · exact ihInner line inside
    · exact exact_writes closed (by decide)
    · exact ihAfter line later
  | branch opened inner divided other closed after ihInner ihOther ihAfter =>
    obtain ⟨head,rfl,opened⟩ := opened
    obtain ⟨middle,rfl,divided⟩ := divided
    obtain ⟨last,rfl,closed⟩ := closed
    intro line member
    simp only [printed,List.flatMap_cons,List.flatMap_append,Segment.lines,List.mem_append,List.mem_singleton] at member
    rcases member with rfl | inside | rfl | inside | rfl | later
    · exact exact_starts (opens_trim opened).1 (by decide) (by decide) (by decide)
    · exact ihInner line inside
    · exact exact_writes divided (by decide)
    · exact ihOther line inside
    · exact exact_writes closed (by decide)
    · exact ihAfter line later

-- Lines that a block is not opened, divided or closed by are pushed one by one.
theorem parse_stretch (depth : Nat) (inElse : Bool) (i : Nat) (block : Preprocessor.ConditionalBlock) (stretch rest : List Text)
    (inner : ∀ line ∈ stretch, starts line .If = false ∧ starts line .EndIf = false ∧ starts line .Else = false) :
    parseLoop (depth+1) inElse i block (stretch ++ rest) =
      parseLoop (depth+1) inElse (i+stretch.length) (block.pushAll inElse stretch) rest := by
  induction stretch generalizing i block with
  | nil => rfl
  | cons line more ih =>
    obtain ⟨notIf,notEnd,notElse⟩ := inner line List.mem_cons_self
    simp only [List.cons_append,parseLoop,notIf,notEnd,notElse,Bool.false_and,Bool.false_eq_true,if_false]
    rw [ih _ _ fun other member => inner other (List.mem_cons_of_mem line member),List.length_cons,Nat.add_assoc,Nat.add_comm 1]
    rfl

theorem leaf_stretch {segment : Segment} (regular : segment.Regular) :
    ∀ line ∈ segment.lines, starts line .If = false ∧ starts line .EndIf = false ∧ starts line .Else = false := by
  intro line member
  have plain {line : Text} (regular : Regular line) : starts line .If = false ∧ starts line .EndIf = false ∧ starts line .Else = false :=
    ⟨regular .If,regular .EndIf,regular .Else⟩
  have safari {line : Text} (first : starts line .Safari = true) :
      starts line .If = false ∧ starts line .EndIf = false ∧ starts line .Else = false :=
    ⟨starts_only first (by decide),starts_only first (by decide),starts_only first (by decide)⟩
  cases segment with
  | line text =>
    cases List.mem_singleton.mp member
    exact plain regular
  | safari head body last =>
    obtain ⟨opened,inner,closed⟩ := regular
    rcases List.mem_cons.mp member with rfl | later
    · exact safari opened
    · rcases List.mem_append.mp later with inside | last
      · exact plain (inner line inside)
      · cases List.mem_singleton.mp last
        exact safari (writes_starting closed)

section Marked
variable (inElse : Bool) (i : Nat) (block : Preprocessor.ConditionalBlock) (rest : List Text)

theorem parse_open (opened : Opens condition line) (depth : Nat) :
    parseLoop (depth+1) inElse i block (line :: rest) = parseLoop (depth+2) inElse (i+1) (block.push inElse line) rest := by
  rw [parseLoop,if_pos (opens_trim opened).1]

theorem parse_close (closed : Writes .EndIf line) (depth : Nat) :
    parseLoop (depth+1) inElse i block (line :: rest) =
      if depth = 0 then some ⟨block,i⟩ else parseLoop depth inElse (i+1) (block.push inElse line) rest := by
  have notIf : starts line .If = false := starts_only (writes_starting closed) (by decide)
  simp only [parseLoop,notIf,writes_starting closed,Bool.false_eq_true,if_false,if_true]

theorem parse_divide (divided : Writes .Else line) (depth : Nat) :
    parseLoop (depth+1) inElse i block (line :: rest) =
      if depth = 0 then parseLoop (depth+1) true (i+1) block rest
      else parseLoop (depth+1) inElse (i+1) (block.push inElse line) rest := by
  have notIf : starts line .If = false := starts_only (writes_starting divided) (by decide)
  have notEnd : starts line .EndIf = false := starts_only (writes_starting divided) (by decide)
  simp only [parseLoop,notIf,notEnd,writes_starting divided,Bool.true_and,beq_iff_eq,Bool.false_eq_true,if_false]

end Marked

theorem pushAll_append (block : Preprocessor.ConditionalBlock) (inElse : Bool) (first second : List Text) :
    block.pushAll inElse (first ++ second) = (block.pushAll inElse first).pushAll inElse second := List.foldl_append

theorem pushAll_cons (block : Preprocessor.ConditionalBlock) (inElse : Bool) (line : Text) (rest : List Text) :
    block.pushAll inElse (line :: rest) = (block.push inElse line).pushAll inElse rest := rfl

theorem printed_append (first second : List Segment) : printed (first ++ second) = printed first ++ printed second :=
  List.flatMap_append

theorem printed_line (text : Text) (rest : List Segment) : printed (.line text :: rest) = text :: printed rest := rfl

-- A well-nested stretch inside a block is pushed whole, with the blocks in it.
theorem parse_document (prints : Prints segmentMarks document segments) (depth : Nat) (inElse : Bool) (i : Nat)
    (block : Preprocessor.ConditionalBlock) (rest : List Text) :
    parseLoop (depth+1) inElse i block (printed segments ++ rest) =
      parseLoop (depth+1) inElse (i+(printed segments).length) (block.pushAll inElse (printed segments)) rest := by
  induction prints generalizing depth i block rest with
  | done => rfl
  | @leaf item tail lines plain after ih =>
    have whole : printed (item :: lines) = item.lines ++ printed lines := List.flatMap_cons
    rw [whole,List.append_assoc,parse_stretch depth inElse i block item.lines _ (leaf_stretch plain),ih,List.length_append,
      Nat.add_assoc,pushAll_append]
  | block opened inner closed after ihInner ihAfter =>
    obtain ⟨head,rfl,opened⟩ := opened
    obtain ⟨last,rfl,closed⟩ := closed
    simp only [printed_line,printed_append,List.cons_append,List.append_assoc]
    rw [parse_open inElse i block _ opened,ihInner,parse_close _ _ _ _ closed,if_neg (Nat.succ_ne_zero depth),ihAfter]
    congr 1
    · simp only [List.length_cons,List.length_append]; omega
    · simp only [pushAll_cons,pushAll_append]
  | branch opened inner divided other closed after ihInner ihOther ihAfter =>
    obtain ⟨head,rfl,opened⟩ := opened
    obtain ⟨middle,rfl,divided⟩ := divided
    obtain ⟨last,rfl,closed⟩ := closed
    simp only [printed_line,printed_append,List.cons_append,List.append_assoc]
    rw [parse_open inElse i block _ opened,ihInner,parse_divide _ _ _ _ divided,if_neg (Nat.succ_ne_zero depth),ihOther,
      parse_close _ _ _ _ closed,if_neg (Nat.succ_ne_zero depth),ihAfter]
    congr 1
    · simp only [List.length_cons,List.length_append]; omega
    · simp only [pushAll_cons,pushAll_append]

theorem parse_block (inner : Prints segmentMarks thens body) (closed : Writes .EndIf last) (i : Nat) (condition : Text) (rest : List Text) :
    parseLoop 1 false (i+1) ⟨condition,[],[]⟩ (printed body ++ last :: rest) =
      some ⟨⟨condition,printed body,[]⟩,i+((printed body).length+1)⟩ := by
  rw [parse_document inner,parse_close _ _ _ _ closed,if_pos rfl,pushAll_if,List.nil_append,Nat.add_right_comm,Nat.add_assoc]

theorem parse_branch (inner : Prints segmentMarks thens body) (divided : Writes .Else middle)
    (other : Prints segmentMarks elses alternative) (closed : Writes .EndIf last) (i : Nat) (condition : Text) (rest : List Text) :
    parseLoop 1 false (i+1) ⟨condition,[],[]⟩ (printed body ++ middle :: (printed alternative ++ last :: rest)) =
      some ⟨⟨condition,printed body,printed alternative⟩,i+((printed body).length+1+(printed alternative).length+1)⟩ := by
  rw [parse_document inner,parse_divide _ _ _ _ divided,if_pos rfl,parse_document other,parse_close _ _ _ _ closed,if_pos rfl,
    pushAll_if,pushAll_else,List.nil_append,List.nil_append]
  congr 2
  omega

theorem skip_body (inner : ∀ line ∈ body, Regular line) (closed : Writes .Safari last) (rest : List Text) :
    skipSafari (body ++ last :: rest) = rest := by
  induction body with
  | nil =>
    have length : (trim last).length = DirectiveType.Safari.text.length := by rw [writes_trim closed]
    rw [List.nil_append,skipSafari,writes_starting closed,length,BEq.rfl,Bool.and_self,if_pos rfl]
  | cons line more ih =>
    rw [List.cons_append,skipSafari,inner line List.mem_cons_self .Safari,Bool.false_and,if_neg Bool.false_ne_true]
    exact ih fun other member => inner other (List.mem_cons_of_mem line member)

theorem andThen_lines (one more : List Text) (s : σ) (next : σ → Outcome σ) (ran : next s = (.ok more,s)) :
    Outcome.andThen (.ok one,s) next = (.ok (one ++ more),s) := (andThen_ok _ _).mpr ⟨one,s,more,rfl,ran,rfl⟩

theorem nothing_processed (evaluate : Text → Bool) (includeLoader : Option (Text → σ → Outcome σ)) (fuel i : Nat) (lines : List Text)
    (s : σ) : (if lines.length > 0 then rethrown (processLoop evaluate includeLoader fuel i lines s) else (.ok [],s)) =
      rethrown (processLoop evaluate includeLoader fuel i lines s) := by
  cases lines with
  | nil => cases fuel <;> rfl
  | cons line rest => rfl

-- The !#if step once its block is parsed; elses is empty where there is none.
theorem process_if (opened : Opens condition head) (evaluate : Text → Bool) (includeLoader : Option (Text → σ → Outcome σ))
    (parsed : parseLoop 1 false (i+1) ⟨conditionOf head,[],[]⟩ lines = some ⟨⟨conditionOf head,thens,elses⟩,i+span⟩)
    (first : processLoop evaluate includeLoader fuel 0 thens s = (.ok one,s))
    (second : processLoop evaluate includeLoader fuel 0 elses s = (.ok other,s))
    (next : processLoop evaluate includeLoader fuel (i+span+1) (lines.drop span) s = (.ok more,s)) :
    processLoop evaluate includeLoader (fuel+1) i (head :: lines) s =
      (.ok ((if evaluate (trim condition) then one else other) ++ more),s) := by
  obtain ⟨opens,condition_read⟩ := opens_trim opened
  have index : i+span+1-i = span+1 := by omega
  simp only [processLoop,opens,if_true,parseConditionalBlock,parsed,nothing_processed,index,List.drop_succ_cons]
  rw [condition_read]
  split
  · rw [first,rethrown_ok]
    exact andThen_lines one more s _ next
  · rw [second,rethrown_ok]
    exact andThen_lines other more s _ next

-- Decided block by block, a document is processed to the lines its items keep.
theorem process_document (prints : Prints segmentMarks document segments) (evaluate : Text → Bool)
    (includeLoader : Option (Text → σ → Outcome σ)) (enough : (printed segments).length ≤ fuel) (i : Nat) (s : σ) :
    processLoop evaluate includeLoader fuel i (printed segments) s =
      (.ok ((document.flatten fun condition => evaluate (trim condition)).flatMap Segment.kept),s) := by
  induction prints generalizing fuel i with
  | done => cases fuel <;> rfl
  | @leaf item tail lines plain after ih =>
    cases item with
    | line text =>
      rw [printed_line,List.length_cons] at enough
      obtain ⟨less,rfl⟩ : ∃ less, fuel = less+1 := ⟨fuel-1,by omega⟩
      rw [printed_line,processLoop,plain .If,plain .Include,plain .Safari]
      exact andThen_lines [text] _ s _ (ih (Nat.le_of_succ_le_succ enough) (i+1))
    | safari head body last =>
      obtain ⟨opened,inner,closed⟩ := plain
      have whole : printed (.safari head body last :: lines) = head :: (body ++ last :: printed lines) := by
        simp [printed,Segment.lines]
      rw [whole,List.length_cons,List.length_append,List.length_cons] at enough
      obtain ⟨less,rfl⟩ : ∃ less, fuel = less+1 := ⟨fuel-1,by omega⟩
      have notIf : starts head .If = false := starts_only opened (by decide)
      have notInclude : starts head .Include = false := starts_only opened (by decide)
      rw [whole,processLoop,notIf,notInclude,opened,skip_body inner closed]
      exact ih (by omega) _
  | @block key head thens body tail after lines opened inner closed remaining ihInner ihAfter =>
    obtain ⟨head,rfl,opened⟩ := opened
    obtain ⟨last,rfl,closed⟩ := closed
    simp only [printed_line,printed_append,List.length_cons,List.length_append] at enough ⊢
    obtain ⟨less,rfl⟩ : ∃ less, fuel = less+1 := ⟨fuel-1,by omega⟩
    have dropped : (printed body ++ last :: printed lines).drop ((printed body).length+1) = printed lines := by simp
    have next := @ihAfter less (by omega) (i+((printed body).length+1)+1)
    rw [← dropped] at next
    have none : processLoop evaluate includeLoader less 0 [] s = (.ok [],s) := by cases less <;> rfl
    rw [process_if opened evaluate includeLoader (parse_block inner closed i _ _) (ihInner (by omega) 0) none next,Document.flatten,
      List.flatMap_append]
    split <;> rfl
  | @branch key head thens body middle elses alternative tail after lines opened inner divided other closed remaining ihInner ihOther ihAfter =>
    obtain ⟨head,rfl,opened⟩ := opened
    obtain ⟨middle,rfl,divided⟩ := divided
    obtain ⟨last,rfl,closed⟩ := closed
    simp only [printed_line,printed_append,List.length_cons,List.length_append] at enough ⊢
    obtain ⟨less,rfl⟩ : ∃ less, fuel = less+1 := ⟨fuel-1,by omega⟩
    have dropped : (printed body ++ middle :: (printed alternative ++ last :: printed lines)).drop
        ((printed body).length+1+(printed alternative).length+1) = printed lines := by
      have regroup : printed body ++ middle :: (printed alternative ++ last :: printed lines) =
          (printed body ++ middle :: printed alternative ++ [last]) ++ printed lines := by simp
      rw [regroup]
      exact List.drop_left' (by simp; omega)
    have next := @ihAfter less (by omega) (i+((printed body).length+1+(printed alternative).length+1)+1)
    rw [← dropped] at next
    rw [process_if opened evaluate includeLoader (parse_branch inner divided other closed i _ _) (ihInner (by omega) 0)
      (ihOther (by omega) 0) next,Document.flatten,List.flatMap_append]
    split <;> rfl

theorem flattened_kept (prints : Prints segmentMarks document segments) (holds : Text → Bool) :
    ∀ line ∈ (document.flatten holds).flatMap Segment.kept, stray line = false := by
  have kept {segment : Segment} (regular : segment.Regular) : ∀ line ∈ segment.kept, stray line = false := by
    intro line member
    cases segment with
    | line text =>
      cases List.mem_singleton.mp member
      have exact := exact_regular regular
      rw [stray,← exact.divides,← exact.closes,regular .Else,regular .EndIf,Bool.or_self]
    | safari head body last => exact absurd member List.not_mem_nil
  induction prints with
  | done => exact fun line member => absurd member List.not_mem_nil
  | leaf plain after ih =>
    intro line member
    rw [Document.flatten,List.flatMap_cons] at member
    rcases List.mem_append.mp member with own | later
    · exact kept plain line own
    · exact ih line later
  | block opened inner closed after ihInner ihAfter =>
    intro line member
    rw [Document.flatten,List.flatMap_append] at member
    rcases List.mem_append.mp member with inside | later
    · split at inside
      · exact ihInner line inside
      · exact absurd inside List.not_mem_nil
    · exact ihAfter line later
  | branch opened inner divided other closed after ihInner ihOther ihAfter =>
    intro line member
    rw [Document.flatten,List.flatMap_append] at member
    rcases List.mem_append.mp member with inside | later
    · split at inside
      · exact ihInner line inside
      · exact ihOther line inside
    · exact ihAfter line later

end Documents

def PlatformDownloader.processDirectives (p : Download.PlatformDownloader) (room : Nat) (basePath : Text) (lines visited : List Text) :
    Outcome (List Text) := Preprocessor.processDirectives (p.downloader.environment room basePath) lines visited

-- The evaluator without a platform and PlatformDownloader, whatever either is
-- given besides the document: both return the lines that the document's items
-- keep once its conditions are decided.
theorem processed_alike (p : Download.PlatformDownloader) (room : Nat) (basePath : Text) (visited : List Text)
    (includeLoader : Option (Text → σ → Outcome σ)) (s : σ) (prints : Prints segmentMarks document segments) :
    ∃ out, process p.newFunction p.toLowerCase ⟨none,includeLoader⟩ (printed segments) s = (.ok out,s) ∧
      PlatformDownloader.processDirectives p room basePath (printed segments) visited = (.ok out,visited) ∧
      out = (document.flatten fun condition =>
        Conditions.ConditionalEvaluator.evaluate p.newFunction p.toLowerCase (trim condition) none).flatMap Segment.kept := by
  have evaluated := process_document prints
    (fun condition => Conditions.ConditionalEvaluator.evaluate p.newFunction p.toLowerCase condition none) includeLoader
    (Nat.le_refl _) 0 s
  refine ⟨_,?_,?_,rfl⟩
  · rw [process,evaluated,rethrown_ok]
  · have same := process_pieces _ includeLoader (exact_printed prints) evaluated
    rw [List.filter_eq_self.mpr fun line member => by rw [flattened_kept prints _ line member]; rfl] at same
    rw [PlatformDownloader.processDirectives,directives_pieces]
    exact (congrArg (fun items => runPieces _ items visited) same).trans (run_lines _ _ visited)

def quiet : Download.PlatformDownloader where
  canHandle _ := false
  fetch _ := .error []
  newURL _ _ := .error []
  newFunction _ := none
  toLowerCase := lowerCase

-- A safari block and a nested block in the branch that is taken.
def nested : List Segment :=
  [.line "!#if".toList,.safari "!#safari_cb_affinity(all)".toList ["||a^".toList] "!#safari_cb_affinity".toList,
    .line "!#if (".toList,.line "||b^".toList,.line "!#else".toList,.line "||c^".toList,.line "!#endif".toList,
    .line "!#endif".toList,.line "||d^".toList]

theorem nested_alike : ∃ out, process quiet.newFunction quiet.toLowerCase ⟨none,none⟩ (printed nested) () = (.ok out,()) ∧
    PlatformDownloader.processDirectives quiet 0 [] (printed nested) [] = (.ok out,[]) ∧ out = ["||c^".toList,"||d^".toList] := by
  have regular {text : Text} (plain : [DirectiveType.If,.Else,.EndIf,.Include,.Safari].all (fun directive => !starts text directive) = true) :
      Regular text := by
    intro directive
    cases directive <;> simp_all
  have written (directive : DirectiveType) : Writes directive directive.text :=
    ⟨[],[],allSpace_nil,allSpace_nil,by simp⟩
  have empty : segmentMarks.opens [] (.line "!#if".toList) := ⟨_,rfl,[],[],[],allSpace_nil,allSpace_nil,allSpace_nil,rfl⟩
  have paren : segmentMarks.opens ['('] (.line "!#if (".toList) :=
    ⟨_,rfl,[],[' '],[],allSpace_nil,fun c member => by cases List.mem_singleton.mp member; rfl,allSpace_nil,rfl⟩
  have divides : segmentMarks.divides (.line "!#else".toList) := ⟨_,rfl,written .Else⟩
  have closes : segmentMarks.closes (.line "!#endif".toList) := ⟨_,rfl,written .EndIf⟩
  have safari : segmentMarks.plain (.safari "!#safari_cb_affinity(all)".toList ["||a^".toList] "!#safari_cb_affinity".toList) :=
    ⟨by decide,fun line member => by cases List.mem_singleton.mp member; exact regular (by decide),written .Safari⟩
  have b : segmentMarks.plain (.line "||b^".toList) := regular (by decide)
  have c : segmentMarks.plain (.line "||c^".toList) := regular (by decide)
  have d : segmentMarks.plain (.line "||d^".toList) := regular (by decide)
  have prints : Prints segmentMarks _ nested :=
    .block empty (.leaf safari (.branch paren (.leaf b .done) divides (.leaf c .done) closes .done)) closes (.leaf d .done)
  obtain ⟨out,evaluated,downloaded,same⟩ := processed_alike quiet 0 [] [] (none : Option (Text → Unit → Outcome Unit)) () prints
  exact ⟨out,evaluated,downloaded,by rw [same]; decide⟩

end AdblockCompiler.Evaluation
