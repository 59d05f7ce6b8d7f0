import AdblockCompiler.Rules

namespace AdblockCompiler.Deduplicate
open JsText Rules

-- StringUtils.isEmpty
def isEmpty (str : Text) : Bool := (trim str).length = 0

section Transformation
variable (parser : RuleParser)

def isCommentOrEmpty (rule : Text) : Bool := isComment parser rule || isEmpty rule

-- Pass 1: the index of the first occurrence of each rule.
def note (firstOccurrence : List (Text × Nat)) (entry : Text × Nat) : List (Text × Nat) :=
  if !isComment parser entry.1 && !isEmpty entry.1 then
    if firstOccurrence.any (·.1 = entry.1) then firstOccurrence else firstOccurrence ++ [entry]
  else firstOccurrence

def firstOccurrences (rules : List Text) : List (Text × Nat) := rules.zipIdx.foldl (note parser) []

def indexOf (firstOccurrence : List (Text × Nat)) (rule : Text) : Option Nat :=
  (firstOccurrence.find? (·.1 = rule)).map Prod.snd

-- Pass 2: comments wait for the rule behind them.
structure Pass where
  result : List Text := []
  pendingComments : List Text := []

def Pass.visit (firstOccurrence : List (Text × Nat)) (pass : Pass) (entry : Text × Nat) : Pass :=
  if isCommentOrEmpty parser entry.1 then { pass with pendingComments := pass.pendingComments ++ [entry.1] }
  else if indexOf firstOccurrence entry.1 = some entry.2 then ⟨pass.result ++ pass.pendingComments ++ [entry.1],[]⟩
  else ⟨pass.result,[]⟩

def executeSync (rules : List Text) : List Text :=
  if rules.length = 0 then rules
  else
    let pass := rules.zipIdx.foldl (Pass.visit parser (firstOccurrences parser rules)) {}
    pass.result ++ pass.pendingComments

-- The lines that are no comment and not empty.
def ruleLines (rules : List Text) : List Text := rules.filter fun rule => !isCommentOrEmpty parser rule

end Transformation

section Occurrences
variable (parser : RuleParser)

theorem indexOf_concat (first : List (Text × Nat)) (entry : Text × Nat) (rule : Text) :
    indexOf (first ++ [entry]) rule = (indexOf first rule).or (if entry.1 = rule then some entry.2 else none) := by
  rw [indexOf,indexOf,List.find?_append]
  cases first.find? (·.1 = rule) with
  | some found => rfl
  | none => by_cases same : entry.1 = rule <;> simp [same]

theorem indexOf_known (first : List (Text × Nat)) (rule : Text) :
    first.any (·.1 = rule) = (indexOf first rule).isSome := by
  rw [indexOf,Option.isSome_map,Bool.eq_iff_iff,List.find?_isSome,List.any_eq_true]

-- The table of a list holds where each of its rules stands first.
theorem firstOccurrences_exact (rules : List Text) (rule : Text) (own : isCommentOrEmpty parser rule = false) :
    indexOf (firstOccurrences parser rules) rule = rules.findIdx? (· = rule) := by
  obtain ⟨comment,empty⟩ := Bool.or_eq_false_iff.mp own
  induction rules using List.reverseRecOn with
  | nil => rfl
  | append_singleton seen last ih =>
    have table : firstOccurrences parser (seen ++ [last]) = note parser (firstOccurrences parser seen) (last,seen.length) := by
      simp [firstOccurrences,List.zipIdx_append]
    rw [table,List.findIdx?_append,← ih,note]
    by_cases same : last = rule
    · subst same
      rw [comment,empty,indexOf_known]
      cases found : indexOf (firstOccurrences parser seen) last with
      | some i => simp [found]
      | none => simp [found,indexOf_concat]
    · have differs : [last].findIdx? (· = rule) = none := by simp [same]
      rw [differs,Option.map_none,Option.or_none]
      split
      · split
        · rfl
        · rw [indexOf_concat,if_neg same,Option.or_none]
      · rfl

-- A rule stands at the index of the table just when it does not stand before.
theorem first_exact (before after : List Text) (own : isCommentOrEmpty parser rule = false) :
    indexOf (firstOccurrences parser (before ++ rule :: after)) rule = some before.length ↔ rule ∉ before := by
  have here : (rule :: after).findIdx? (· = rule) = some 0 := by simp [List.findIdx?_cons]
  rw [firstOccurrences_exact parser _ rule own,List.findIdx?_append,here]
  cases found : before.findIdx? (· = rule) with
  | none =>
    have absent : ∀ r ∈ before, decide (r = rule) = false := List.findIdx?_eq_none_iff.mp found
    simp only [Option.none_or,Option.map_some,Nat.zero_add,true_iff]
    intro member
    exact of_decide_eq_false (absent rule member) rfl
  | some i =>
    obtain ⟨inside,meets,-⟩ := List.findIdx?_eq_some_iff_getElem.mp found
    have there : rule ∈ before := of_decide_eq_true meets ▸ List.getElem_mem inside
    simp only [Option.some_or,Option.some.injEq,there,not_true_eq_false,iff_false]
    omega

end Occurrences

section Passes
variable (parser : RuleParser)

-- Of the lines seen so far each rule is listed once; comments only are waiting.
structure Passed (seen : List Text) (pass : Pass) : Prop where
  once : (ruleLines parser pass.result).Nodup
  listed : ∀ rule, rule ∈ ruleLines parser pass.result ↔ rule ∈ ruleLines parser seen
  waiting : ∀ line ∈ pass.pendingComments, isCommentOrEmpty parser line = true

theorem ruleLines_append (one two : List Text) :
    ruleLines parser (one ++ two) = ruleLines parser one ++ ruleLines parser two := List.filter_append ..

theorem ruleLines_comments (comments : ∀ line ∈ lines, isCommentOrEmpty parser line = true) : ruleLines parser lines = [] := by
  apply List.filter_eq_nil_iff.mpr
  intro line member
  rw [comments line member]
  decide

theorem ruleLines_one (own : isCommentOrEmpty parser rule = false) : ruleLines parser [rule] = [rule] := by
  rw [ruleLines,List.filter_cons_of_pos (by rw [own]; rfl),List.filter_nil]

theorem mem_ruleLines : rule ∈ ruleLines parser rules ↔ rule ∈ rules ∧ isCommentOrEmpty parser rule = false := by
  rw [ruleLines,List.mem_filter,Bool.not_eq_true']

theorem passed_step {pass : Pass} (passed : Passed parser seen pass) (line : Text) (after : List Text) :
    Passed parser (seen ++ [line])
      (pass.visit parser (firstOccurrences parser (seen ++ line :: after)) (line,seen.length)) := by
  obtain ⟨once,listed,waiting⟩ := passed
  rw [Pass.visit]
  by_cases own : isCommentOrEmpty parser line = true
  · have nothing : ruleLines parser [line] = [] := ruleLines_comments parser (by simpa using own)
    rw [if_pos own]
    refine ⟨once,?_,?_⟩
    · intro rule
      rw [ruleLines_append,nothing,List.append_nil]
      exact listed rule
    · intro comment member
      rcases List.mem_append.mp member with old | new
      · exact waiting comment old
      · rw [List.mem_singleton.mp new]
        exact own
  · have rule : isCommentOrEmpty parser line = false := Bool.eq_false_iff.mpr own
    have first := first_exact parser seen after rule
    rw [if_neg own]
    have present : line ∈ ruleLines parser seen ↔ line ∈ seen := by
      rw [mem_ruleLines,rule]
      exact and_iff_left rfl
    split
    · next found =>
      have fresh := first.mp found
      have lines : ruleLines parser (pass.result ++ pass.pendingComments ++ [line]) = ruleLines parser pass.result ++ [line] := by
        rw [ruleLines_append,ruleLines_append,ruleLines_comments parser waiting,ruleLines_one parser rule,List.append_nil]
      refine ⟨?_,?_,fun _ none_ => by cases none_⟩
      · rw [lines]
        have outside : line ∉ ruleLines parser pass.result := fun member => fresh (present.mp ((listed line).mp member))
        refine List.nodup_append.mpr ⟨once,List.nodup_singleton line,?_⟩
        intro one kept other single same
        rw [List.mem_singleton] at single
        subst single
        exact outside (same ▸ kept)
      · intro other
        rw [lines,ruleLines_append,ruleLines_one parser rule,List.mem_append,List.mem_append,listed]
    · next found =>
      have again := not_not.mp fun fresh => found (first.mpr fresh)
      refine ⟨once,?_,fun _ none_ => by cases none_⟩
      intro other
      rw [listed,ruleLines_append,ruleLines_one parser rule,List.mem_append,List.mem_singleton]
      constructor
      · exact Or.inl
      · rintro (old | rfl)
        · exact old
        · exact present.mpr again

theorem passed_run (seen after : List Text) :
    Passed parser seen (seen.zipIdx.foldl (Pass.visit parser (firstOccurrences parser (seen ++ after))) {}) := by
  induction seen using List.reverseRecOn generalizing after with
  | nil => exact ⟨List.nodup_nil,fun _ => Iff.rfl,fun _ none_ => by cases none_⟩
  | append_singleton seen line ih =>
    have step := passed_step parser (ih (line :: after)) line after
    rw [List.append_assoc,List.zipIdx_append,List.foldl_append]
    simpa using step

-- What is left has each rule of the list once.
theorem executeSync_once (rules : List Text) :
    (ruleLines parser (executeSync parser rules)).Nodup ∧
      ∀ rule, rule ∈ ruleLines parser (executeSync parser rules) ↔ rule ∈ ruleLines parser rules := by
  rw [executeSync]
  split
  · next empty =>
    rw [List.length_eq_zero_iff.mp empty]
    exact ⟨List.nodup_nil,fun _ => Iff.rfl⟩
  · have passed := passed_run parser rules []
    rw [List.append_nil] at passed
    rw [ruleLines_append,ruleLines_comments parser passed.waiting,List.append_nil]
    exact ⟨passed.once,passed.listed⟩

end Passes

section Attached
variable (parser : RuleParser)

def nextRule (lines : List Text) : Option Text := lines.find? fun line => !isCommentOrEmpty parser line

-- A rule stays where it stands for the first time, a remark with the rule line
-- behind it; the remarks between the two are other texts than the rule.
def stays (before : List Text) (line : Text) (after : List Text) : Bool :=
  if isCommentOrEmpty parser line then (nextRule parser after).all fun rule => rule ∉ before else line ∉ before

def survivors (before : List Text) : List Text → List Text
  | [] => []
  | line :: after =>
    if stays parser before line after then line :: survivors (before ++ [line]) after else survivors (before ++ [line]) after

theorem survivors_indexed (before after : List Text) :
    survivors parser before after =
      ((after.zipIdx before.length).filter fun entry =>
        stays parser ((before ++ after).take entry.2) entry.1 ((before ++ after).drop (entry.2+1))).map Prod.fst := by
  induction after generalizing before with
  | nil => rfl
  | cons line after ih =>
    have whole : before ++ line :: after = before ++ [line] ++ after := by rw [List.append_assoc,List.singleton_append]
    have rest := ih (before ++ [line])
    rw [List.length_append,List.length_singleton,← whole] at rest
    rw [survivors,List.zipIdx_cons,List.filter_cons,rest]
    have front : (before ++ line :: after).take before.length = before := List.take_left
    have back : (before ++ line :: after).drop (before.length+1) = after := by
      rw [whole]
      exact List.drop_left' (by rw [List.length_append,List.length_singleton])
    simp only [front,back]
    split <;> rfl

theorem nextRule_own (next : nextRule parser lines = some rule) : isCommentOrEmpty parser rule = false := by
  have own := List.find?_some next
  rwa [Bool.not_eq_true'] at own

-- Remarks are no rules, so they leave open what stands for the first time.
theorem fresh_remark (remark : isCommentOrEmpty parser line = true) (before after : List Text) :
    ((nextRule parser after).all fun rule => rule ∉ before ++ [line]) = (nextRule parser after).all fun rule => rule ∉ before := by
  cases next : nextRule parser after with
  | none => rfl
  | some rule =>
    have own := nextRule_own parser next
    have other : rule ≠ line := by
      rintro rfl
      rw [remark] at own
      cases own
    simp [other]

theorem nextRule_remark (remark : isCommentOrEmpty parser line = true) (after : List Text) :
    nextRule parser (line :: after) = nextRule parser after := by
  rw [nextRule,List.find?_cons_of_neg (by simp [remark])]
  rfl

theorem nextRule_rule (own : isCommentOrEmpty parser line = false) (after : List Text) : nextRule parser (line :: after) = some line := by
  rw [nextRule,List.find?_cons_of_pos (by simp [own])]

-- The waiting remarks are written out with the next rule, if that is new.
theorem passes_survivors (before after : List Text) (pass : Pass) :
    let done := (after.zipIdx before.length).foldl (Pass.visit parser (firstOccurrences parser (before ++ after))) pass
    done.result ++ done.pendingComments =
      pass.result ++ (if (nextRule parser after).all fun rule => rule ∉ before then pass.pendingComments else []) ++
        survivors parser before after := by
  induction after generalizing before pass with
  | nil => simp [nextRule,survivors]
  | cons line after ih =>
    have whole : before ++ line :: after = before ++ [line] ++ after := by rw [List.append_assoc,List.singleton_append]
    have size : (before ++ [line]).length = before.length+1 := by rw [List.length_append,List.length_singleton]
    have rest := ih (before ++ [line]) (pass.visit parser (firstOccurrences parser (before ++ line :: after)) (line,before.length))
    rw [size,← whole] at rest
    rw [List.zipIdx_cons,List.foldl_cons]
    refine rest.trans ?_
    rw [survivors,stays,Pass.visit]
    cases remark : isCommentOrEmpty parser line with
    | true =>
      rw [fresh_remark parser remark,nextRule_remark parser remark]
      simp only [if_true]
      split <;> simp
    | false =>
      rw [nextRule_rule parser remark]
      have first := first_exact parser before after remark
      by_cases fresh : line ∉ before
      · simp [first.mpr fresh,fresh]
      · have again : indexOf (firstOccurrences parser (before ++ line :: after)) line ≠ some before.length := fun found => fresh (first.mp found)
        simp [again,fresh]

theorem executeSync_survivors (rules : List Text) : executeSync parser rules = survivors parser [] rules := by
  rw [executeSync]
  split
  · next empty =>
    rw [List.length_eq_zero_iff.mp empty]
    rfl
  · exact (passes_survivors parser [] rules {}).trans (by simp)

-- What is the next rule stays the next rule, where it is new.
theorem nextRule_survivors (before after : List Text) (fresh : (nextRule parser after).all (fun rule => rule ∉ before) = true) :
    nextRule parser (survivors parser before after) = nextRule parser after := by
  induction after generalizing before with
  | nil => rfl
  | cons line after ih =>
    rw [survivors,stays]
    cases remark : isCommentOrEmpty parser line with
    | true =>
      rw [nextRule_remark parser remark] at fresh ⊢
      rw [if_pos rfl,if_pos fresh,nextRule_remark parser remark]
      exact ih (before ++ [line]) ((fresh_remark parser remark before after).trans fresh)
    | false =>
      rw [nextRule_rule parser remark] at fresh ⊢
      have new : decide (line ∉ before) = true := fresh
      rw [if_neg Bool.false_ne_true,if_pos new,nextRule_rule parser remark]

-- Two lists hold the same rules.
def SameRules (one two : List Text) : Prop := ∀ rule, isCommentOrEmpty parser rule = false → (rule ∈ one ↔ rule ∈ two)

theorem SameRules.fresh (same : SameRules parser one two) (lines : List Text) :
    ((nextRule parser lines).all fun rule => rule ∉ one) = (nextRule parser lines).all fun rule => rule ∉ two := by
  cases next : nextRule parser lines with
  | none => rfl
  | some rule => simp [same rule (nextRule_own parser next)]

theorem SameRules.dropped (same : SameRules parser one two)
    (gone : isCommentOrEmpty parser line = true ∨ line ∈ two) : SameRules parser one (two ++ [line]) := by
  intro rule own
  rw [same rule own,List.mem_append,List.mem_singleton]
  constructor
  · exact Or.inl
  · rintro (inside | rfl)
    · exact inside
    · exact gone.resolve_left (by rw [own]; decide)

theorem SameRules.both (same : SameRules parser one two) (line : Text) : SameRules parser (one ++ [line]) (two ++ [line]) := by
  intro rule own
  rw [List.mem_append,List.mem_append,same rule own]

theorem stays_again (same : SameRules parser one two) (kept : stays parser two line after = true) :
    stays parser one line (survivors parser (two ++ [line]) after) = true := by
  rw [stays] at kept ⊢
  cases remark : isCommentOrEmpty parser line with
  | true =>
    rw [remark,if_pos rfl] at kept
    have fresh := (fresh_remark parser remark two after).trans kept
    rw [if_pos rfl,nextRule_survivors parser (two ++ [line]) after fresh,same.fresh]
    exact kept
  | false =>
    rw [remark,if_neg Bool.false_ne_true] at kept
    rw [if_neg Bool.false_ne_true,decide_eq_true_eq,same line remark]
    exact of_decide_eq_true kept

theorem stays_gone (kept : ¬stays parser two line after = true) : isCommentOrEmpty parser line = true ∨ line ∈ two := by
  rw [stays] at kept
  cases remark : isCommentOrEmpty parser line with
  | true => exact .inl rfl
  | false =>
    rw [remark,if_neg Bool.false_ne_true,decide_eq_true_eq,not_not] at kept
    exact .inr kept

theorem survivors_again (same : SameRules parser one two) (lines : List Text) :
    survivors parser one (survivors parser two lines) = survivors parser two lines := by
  induction lines generalizing one two with
  | nil => rfl
  | cons line after ih =>
    rw [survivors]
    by_cases kept : stays parser two line after = true
    · rw [if_pos kept,survivors,if_pos (stays_again parser same kept),ih (same.both parser line)]
    · rw [if_neg kept]
      exact ih (same.dropped parser (stays_gone parser kept))

-- Each rule stays where it stands first, with the remarks before it and those at
-- the end, and a second run changes nothing.
theorem survivors_exact (rules : List Text) :
    executeSync parser rules = (rules.zipIdx.filter fun entry =>
        stays parser (rules.take entry.2) entry.1 (rules.drop (entry.2+1))).map Prod.fst ∧
      executeSync parser (executeSync parser rules) = executeSync parser rules := by
  rw [executeSync_survivors,executeSync_survivors]
  exact ⟨survivors_indexed parser [] rules,survivors_again parser (fun _ _ => Iff.rfl) rules⟩

end Attached

example : executeSync basicParser ["! one".toList,"||a.com^".toList,"! two".toList,"||a.com^".toList] =
    ["! one".toList,"||a.com^".toList] := by decide

example : executeSync basicParser ["||a.com^".toList,[],[],"||b.com^".toList,[],"||a.com^".toList,"||c.com^".toList] =
    ["||a.com^".toList,[],[],"||b.com^".toList,"||c.com^".toList] := by decide

end AdblockCompiler.Deduplicate
