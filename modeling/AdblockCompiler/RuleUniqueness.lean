import AdblockCompiler.Conflicts
import AdblockCompiler.Deduplicate
import AdblockCompiler.Pipeline

-- What the transformations behind Deduplicate do to its result.
namespace AdblockCompiler.RuleUniqueness
open JsText Rules Config Pipeline Deduplicate

def RemoveEmptyLines.executeSync (rules : List Text) : List Text := rules.filter fun line => (trim line).length > 0

def InsertFinalNewLine.executeSync (rules : List Text) : List Text :=
  match rules.getLast? with
  | none => rules ++ [[]]
  | some last => if trim last ≠ [] then rules ++ [[]] else rules

-- registerDefaultTransformations, for Deduplicate and what runs behind it.
section Registry
variable (parser : RuleParser) (exempts : Text → Bool) (earlier : TransformationRegistry)

def defaultTransformations : TransformationRegistry
  | .Deduplicate => some fun rules => .ok (Deduplicate.executeSync parser rules)
  | .ConflictDetection => some fun rules => .ok (Conflicts.executeSync parser exempts {} rules).1
  | .RuleOptimizer => some fun rules => .ok (Optimizer.executeSync parser rules)
  | .RemoveEmptyLines => some fun rules => .ok (RemoveEmptyLines.executeSync rules)
  | .InsertFinalNewLine => some fun rules => .ok (InsertFinalNewLine.executeSync rules)
  | type => earlier type

def defaultPipeline (s : FilterService) : TransformationPipeline := ⟨s,defaultTransformations parser exempts earlier⟩

end Registry

def untilDeduplicate : List TransformationType :=
  [.ConvertToAscii,.TrimLines,.RemoveComments,.Compress,.RemoveModifiers,.InvertAllow,.Validate,.ValidateAllowIp,.Deduplicate]

def behindDeduplicate : List TransformationType := [.ConflictDetection,.RuleOptimizer,.RemoveEmptyLines,.InsertFinalNewLine]

def upToDeduplicate (requested : List TransformationType) : List TransformationType :=
  requested.filter (· ∈ untilDeduplicate)

section Order

theorem applyTransformations_append (pipeline : TransformationPipeline) (one two : List TransformationType) (rules : List Text) :
    applyTransformations pipeline (one ++ two) rules =
      (applyTransformations pipeline one rules).bind (applyTransformations pipeline two) := by
  induction one generalizing rules with
  | nil => rfl
  | cons type one ih =>
    rw [List.cons_append,applyTransformations,applyTransformations]
    cases pipeline.registry type with
    | none => exact ih rules
    | some transformation =>
      simp only
      cases transformation rules with
      | error thrown => rfl
      | ok result => exact ih result

theorem upTo_front (requested : List TransformationType) :
    getOrderedTransformations (upToDeduplicate requested) = untilDeduplicate.filter (· ∈ requested) := by
  have parts : requestOrder = untilDeduplicate ++ behindDeduplicate := rfl
  have front : untilDeduplicate.filter (· ∈ upToDeduplicate requested) = untilDeduplicate.filter (· ∈ requested) := by
    apply List.filter_congr
    intro type member
    simp [upToDeduplicate,member]
  have back : behindDeduplicate.filter (· ∈ upToDeduplicate requested) = [] := by
    apply List.filter_eq_nil_iff.mpr
    intro type member
    have outside : type ∉ untilDeduplicate := (by decide : ∀ type ∈ behindDeduplicate, type ∉ untilDeduplicate) type member
    simp [upToDeduplicate,outside]
  rw [getOrderedTransformations,parts,List.filter_append,front,back,List.append_nil]

theorem ordered_parts (requested : List TransformationType) :
    getOrderedTransformations requested =
      getOrderedTransformations (upToDeduplicate requested) ++ behindDeduplicate.filter (· ∈ requested) := by
  have parts : requestOrder = untilDeduplicate ++ behindDeduplicate := rfl
  rw [upTo_front,getOrderedTransformations,parts,List.filter_append]

end Order

section Forms
open Optimizer

-- `||host/`, with a host of /[a-z0-9.-]+/i, gets a caret for its slash. Any
-- other text loses a star behind leading bars and a star before a closing caret.
def SlashHost (host : Text) : Prop := host ≠ [] ∧ ∀ c ∈ host, c.isAlphanum = true ∨ c = '.' ∨ c = '-'

inductive Slim : Text → Text → Prop where
  | slash (host : SlashHost name) : Slim (anchored name ++ ['/']) (anchored name ++ ['^'])
  | both : Slim (anchored ('*' :: body) ++ ['*','^']) (anchored body ++ ['^'])
  | leading (open_ : ¬ ['*','^'] <:+ body) : Slim (anchored ('*' :: body)) (anchored body)
  | trailing (open_ : ¬ ['|','|','*'] <+: body ++ ['*','^']) : Slim (body ++ ['*','^']) (body ++ ['^'])
  | plain (hosts : ∀ name, SlashHost name → text ≠ anchored name ++ ['/']) (front : ¬ ['|','|','*'] <+: text)
      (back : ¬ ['*','^'] <:+ text) : Slim text text

theorem endsInSlash_iff : endsInSlash text = true ↔ ∃ name, SlashHost name ∧ text = anchored name ++ ['/'] := by
  simp only [endsInSlash,Bool.and_eq_true,decide_eq_true_eq,List.all_eq_true,Bool.or_eq_true,beq_iff_eq]
  constructor
  · rintro ⟨⟨⟨bars,last⟩,some_⟩,chars⟩
    obtain ⟨body,rfl⟩ := startsWith_iff.mp bars
    have shape : body.dropLast ++ ['/'] = body := List.dropLast_append_getLast? _ last
    refine ⟨body.dropLast,⟨some_,fun c member => or_assoc.mp (chars c member)⟩,?_⟩
    change '|' :: '|' :: body = '|' :: '|' :: (body.dropLast ++ ['/'])
    rw [shape]
  · rintro ⟨name,⟨some_,chars⟩,rfl⟩
    have body : (anchored name ++ ['/']).drop 2 = name ++ ['/'] := rfl
    rw [body,List.dropLast_concat]
    exact ⟨⟨⟨by simp [anchored,startsWith],List.getLast?_concat⟩,some_⟩,fun c member => or_assoc.mpr (chars c member)⟩

theorem dropLeading_star (body : Text) : dropLeadingStar (anchored ('*' :: body)) = anchored body := rfl

theorem dropLeading_other (front : ¬ ['|','|','*'] <+: text) : dropLeadingStar text = text :=
  if_neg fun starts => front (List.isPrefixOf_iff_prefix.mp starts)

theorem dropTrailing_star (body : Text) : dropTrailingStar (body ++ ['*','^']) = body ++ ['^'] := by
  have ends : endsWith (body ++ ['*','^']) ['*','^'] = true := List.isSuffixOf_iff_suffix.mpr (List.suffix_append body _)
  rw [dropTrailingStar,if_pos ends]
  simp

theorem dropTrailing_other (back : ¬ ['*','^'] <:+ text) : dropTrailingStar text = text :=
  if_neg fun ends => back (List.isSuffixOf_iff_suffix.mp ends)

theorem slashless (hosts : ∀ name, SlashHost name → text ≠ anchored name ++ ['/']) : slashToCaret text = text := by
  apply if_neg
  intro ends
  obtain ⟨name,host,same⟩ := endsInSlash_iff.mp ends
  exact hosts name host same

-- No text with a star is a host and a slash.
theorem starred_hosts (star : '*' ∈ text) (name : Text) (host : SlashHost name) : text ≠ anchored name ++ ['/'] := by
  rintro rfl
  have inside : '*' ∈ name := by simpa [anchored] using star
  rcases host.2 '*' inside with letter | dot | dash
  · exact absurd letter (by decide)
  · cases dot
  · cases dash

theorem slim_made (slim : Slim text form) : dropTrailingStar (dropLeadingStar (slashToCaret text)) = form := by
  cases slim with
  | @slash name host =>
    have starless : '*' ∉ anchored name ++ ['^'] := by
      intro star
      have inside : '*' ∈ anchored name ++ ['/'] := by simpa [anchored] using star
      exact starred_hosts inside name host rfl
    have closed : slashToCaret (anchored name ++ ['/']) = anchored name ++ ['^'] := by
      rw [slashToCaret,if_pos (endsInSlash_iff.mpr ⟨name,host,rfl⟩),List.dropLast_concat]
    rw [closed,dropLeading_other,dropTrailing_other]
    · exact fun back => starless (back.subset List.mem_cons_self)
    · exact fun front => starless (front.subset (by simp))
  | @both body =>
    have opened : dropLeadingStar (anchored ('*' :: body) ++ ['*','^']) = anchored body ++ ['*','^'] := rfl
    rw [slashless (starred_hosts (by simp [anchored])),opened,dropTrailing_star]
  | @leading body open_ =>
    rw [slashless (starred_hosts (by simp [anchored])),dropLeading_star]
    apply dropTrailing_other
    intro back
    obtain ⟨front,same⟩ := back
    rcases front with _ | ⟨c,_ | ⟨d,front⟩⟩
    · cases same
    · cases same
    · exact open_ ⟨front,(List.cons.inj (List.cons.inj same).2).2⟩
  | @trailing body open_ => rw [slashless (starred_hosts (by simp)),dropLeading_other open_,dropTrailing_star]
  | plain hosts front back => rw [slashless hosts,dropLeading_other front,dropTrailing_other back]

theorem slim_some (text : Text) : ∃ form, Slim text form := by
  by_cases slash : ∃ name, SlashHost name ∧ text = anchored name ++ ['/']
  · obtain ⟨name,host,rfl⟩ := slash
    exact ⟨_,.slash host⟩
  · by_cases front : ['|','|','*'] <+: text
    · obtain ⟨body,rfl⟩ := front
      by_cases back : ['*','^'] <:+ body
      · obtain ⟨middle,rfl⟩ := back
        exact ⟨anchored middle ++ ['^'],.both⟩
      · exact ⟨_,.leading back⟩
    · by_cases back : ['*','^'] <:+ text
      · obtain ⟨body,rfl⟩ := back
        exact ⟨_,.trailing front⟩
      · exact ⟨text,.plain (fun name host same => slash ⟨name,host,same⟩) front back⟩

theorem slim_exact : Slim text form ↔ dropTrailingStar (dropLeadingStar (slashToCaret text)) = form := by
  constructor
  · exact slim_made
  · rintro rfl
    obtain ⟨form,slim⟩ := slim_some text
    rw [slim_made slim]
    exact slim

-- The ends of a rule stay as they are, or become bars and a caret.
theorem slim_ends (slim : Slim text form) (some_ : text ≠ []) :
    (form.head? = text.head? ∨ form.head? = some '|' ∨ form.head? = some '^') ∧
      (form.getLast? = text.getLast? ∨ form.getLast? = some '|' ∨ form.getLast? = some '^') := by
  cases slim with
  | slash host => exact ⟨.inr (.inl rfl),.inr (.inr List.getLast?_concat)⟩
  | both => exact ⟨.inr (.inl rfl),.inr (.inr List.getLast?_concat)⟩
  | @leading body open_ =>
    refine ⟨.inr (.inl rfl),?_⟩
    cases body with
    | nil => exact .inr (.inl rfl)
    | cons c rest => exact .inl (by simp [anchored])
  | @trailing body open_ =>
    refine ⟨?_,.inr (.inr List.getLast?_concat)⟩
    cases body with
    | nil => exact .inr (.inr rfl)
    | cons c rest => exact .inl rfl
  | plain => exact ⟨.inl rfl,.inl rfl⟩

theorem skipped_cons (c : Char) (rest : Text) : skipped (c :: rest) = false ↔ c ≠ '!' ∧ c ≠ '#' := by
  have first (mark : Char) : startsWith (c :: rest) [mark] = false ↔ c ≠ mark := by
    rw [startsWith,List.isPrefixOf_cons_cons,List.isPrefixOf_nil_left,Bool.and_true,beq_eq_false_iff_ne,ne_comm]
  rw [skipped,Bool.or_eq_false_iff,Bool.or_eq_false_iff,first,first]
  simp

theorem slim_rule (slim : Slim (trim line) form) (rule : skipped (trim line) = false) : trim form = form ∧ skipped form = false := by
  obtain ⟨c,rest,shape⟩ : ∃ c rest, trim line = c :: rest := by
    cases own : trim line with
    | nil =>
      rw [own] at rule
      cases rule
    | cons c rest => exact ⟨c,rest,rfl⟩
  obtain ⟨front,back⟩ := slim_ends slim (by rw [shape]; exact List.cons_ne_nil c rest)
  have head : ∃ d tail, form = d :: tail ∧ isSpace d = false ∧ d ≠ '!' ∧ d ≠ '#' := by
    have first : ∃ d, form.head? = some d ∧ isSpace d = false ∧ d ≠ '!' ∧ d ≠ '#' := by
      rcases front with same | bar | caret
      · rw [shape] at same rule
        exact ⟨c,same,(trimmed_trim line).1 c rest shape,(skipped_cons c rest).mp rule⟩
      · exact ⟨'|',bar,by decide,by decide,by decide⟩
      · exact ⟨'^',caret,by decide,by decide,by decide⟩
    obtain ⟨d,same,clean⟩ := first
    obtain ⟨tail,rfl⟩ := List.head?_eq_some_iff.mp same
    exact ⟨d,tail,rfl,clean⟩
  have last : (form.getLast?.all fun d => !isSpace d) = true := by
    rcases back with same | bar | caret
    · rw [same]
      cases end_ : (trim line).getLast? with
      | none => rfl
      | some d =>
        have clean := (trimmed_trim line).2 d _ (List.dropLast_append_getLast? d end_).symm
        simp [clean]
    · rw [bar]
      decide
    · rw [caret]
      decide
  obtain ⟨d,tail,rfl,clean,marks⟩ := head
  exact ⟨trim_trimmed (trimmed_ends (by simp [clean]) last),(skipped_cons d tail).mpr marks⟩

section Modifiers
variable (parser : RuleParser)

-- The modifiers of a text with a dollar, as they are printed.
def modifierTexts (text : Text) : List Text :=
  if '$' ∈ text then ((loadAdblockRuleProperties parser text).options.getD []).map optionText else []

-- What the optimizer writes for a line: a remark as it stands, the slimmed
-- text of a rule without a repeated modifier, and a rule with one put together
-- again from its parts, each modifier once.
inductive Form (line : Text) : Text → Prop where
  | remark (skip : skipped (trim line) = true) : Form line line
  | once (rule : skipped (trim line) = false) (slim : Slim (trim line) text) (distinct : (modifierTexts parser text).Nodup) : Form line text
  | again (rule : skipped (trim line) = false) (slim : Slim (trim line) text) (repeats : ¬ (modifierTexts parser text).Nodup) :
      Form line ((if (loadAdblockRuleProperties parser text).whitelist then "@@".toList else []) ++
        (loadAdblockRuleProperties parser text).pattern ++ '$' :: [','].intercalate (modifierTexts parser text).eraseDups)

theorem firstOfKey_keys (key : α → Text) (seen : List Text) (xs : List α) :
    (firstOfKey key seen xs).map key = ((xs.map key).filter fun text => text ∉ seen).eraseDups := by
  induction xs generalizing seen with
  | nil => rfl
  | cons x rest ih =>
    rw [firstOfKey,List.map_cons]
    by_cases known : key x ∈ seen
    · rw [if_pos known,ih,List.filter_cons_of_neg (by simpa using known)]
    · rw [if_neg known,List.map_cons,ih,List.filter_cons_of_pos (by simpa using known),List.eraseDups_cons,List.filter_filter]
      congr 2
      apply List.filter_congr
      intro text _
      by_cases same : text = key x <;> simp [same]

theorem firstOfKey_all (key : α → Text) (seen : List Text) (xs : List α) :
    firstOfKey key seen xs = xs ↔ (xs.map key).Nodup ∧ ∀ x ∈ xs, key x ∉ seen := by
  induction xs generalizing seen with
  | nil => simp [firstOfKey]
  | cons x rest ih =>
    rw [firstOfKey,List.map_cons,List.nodup_cons,List.forall_mem_cons]
    by_cases known : key x ∈ seen
    · have shorter := (firstOfKey_sublist key seen rest).length_le
      rw [if_pos known]
      refine iff_of_false ?_ fun both => both.2.1 known
      intro same
      rw [same,List.length_cons] at shorter
      exact absurd shorter (Nat.not_succ_le_self _)
    · rw [if_neg known,List.cons_inj_right,ih]
      simp only [List.mem_append,List.mem_singleton,not_or,List.mem_map,not_exists,not_and]
      constructor
      · rintro ⟨distinct,fresh⟩
        exact ⟨⟨fun y member => (fresh y member).2,distinct⟩,known,fun y member => (fresh y member).1⟩
      · rintro ⟨⟨other,distinct⟩,-,fresh⟩
        exact ⟨distinct,fun y member => ⟨fresh y member,other y member⟩⟩

theorem shorter_repeats (options : List IRuleModifier) :
    (firstOfKey optionText [] options).length ≠ options.length ↔ ¬ (options.map optionText).Nodup := by
  have inside := firstOfKey_sublist optionText [] options
  have same : firstOfKey optionText [] options = options ↔ (options.map optionText).Nodup := by simp [firstOfKey_all]
  rw [← same,not_iff_not]
  exact ⟨inside.eq_of_length,congrArg List.length⟩

theorem simplifyRule_form (trimmed : trim text = text) (rule : skipped text = false) :
    simplifyRule parser text =
      if (modifierTexts parser text).Nodup then text
      else (if (loadAdblockRuleProperties parser text).whitelist then "@@".toList else []) ++
        (loadAdblockRuleProperties parser text).pattern ++ '$' :: [','].intercalate (modifierTexts parser text).eraseDups := by
  rw [simplifyRule,modifierTexts,trimmed,rule]
  dsimp only
  rw [if_neg Bool.false_ne_true]
  by_cases dollar : '$' ∈ text
  · rw [if_neg (not_not.mpr dollar),if_pos dollar]
    cases own : (loadAdblockRuleProperties parser text).options with
    | none => simp
    | some options =>
      by_cases none : options = []
      · simp [none]
      · have texts := firstOfKey_keys optionText [] options
        have all : (options.map optionText).filter (fun text => decide (text ∉ ([] : List Text))) = options.map optionText := by simp
        rw [all] at texts
        dsimp only [Option.getD_some]
        rw [if_neg none]
        by_cases repeats : (options.map optionText).Nodup
        · rw [if_pos repeats,if_neg fun shorter => (shorter_repeats options).mp shorter repeats]
        · rw [if_neg repeats,if_pos ((shorter_repeats options).mpr repeats),adblockRuleToString]
          have some_ : firstOfKey optionText [] options ≠ [] := by
            obtain ⟨first,rest,rfl⟩ := List.exists_cons_of_ne_nil none
            rw [firstOfKey,if_neg List.not_mem_nil]
            exact List.cons_ne_nil _ _
          obtain ⟨first,rest,shape⟩ := List.exists_cons_of_ne_nil some_
          rw [← texts,shape]
  · rw [if_pos dollar,if_neg dollar,if_pos List.nodup_nil]

theorem form_exact (line form : Text) : Form parser line form ↔ rewrite parser line = form := by
  rw [rewrite,optimizePattern]
  cases skip : skipped (trim line) with
  | true =>
    have kept : simplifyRule parser line = line := by simp [simplifyRule,skip]
    simp only [if_true,kept]
    constructor
    · intro made
      cases made with
      | remark => rfl
      | once rule => exact absurd (skip.symm.trans rule) (by decide)
      | again rule => exact absurd (skip.symm.trans rule) (by decide)
    · rintro rfl
      exact .remark skip
  | false =>
    simp only [Bool.false_eq_true,if_false]
    constructor
    · intro made
      cases made with
      | remark rule => exact absurd (skip.symm.trans rule) (by decide)
      | once _ slim distinct =>
        obtain ⟨trimmed,rule⟩ := slim_rule slim skip
        rw [slim_exact.mp slim,simplifyRule_form parser trimmed rule,if_pos distinct]
      | again _ slim repeats =>
        obtain ⟨trimmed,rule⟩ := slim_rule slim skip
        rw [slim_exact.mp slim,simplifyRule_form parser trimmed rule,if_neg repeats]
    · rintro rfl
      have slim : Slim (trim line) _ := slim_exact.mpr rfl
      obtain ⟨trimmed,rule⟩ := slim_rule slim skip
      rw [simplifyRule_form parser trimmed rule]
      split
      · next distinct => exact .once skip slim distinct
      · next repeats => exact .again skip slim repeats

end Modifiers

end Forms

section Separation
open Optimizer
variable (parser : RuleParser)

-- The domains above a host that have a dot themselves.
def Parent (parent host : Text) : Prop := '.' ∈ parent ∧ ∃ front, host = front ++ '.' :: parent

-- A line stays unless an earlier line has its host, or any line has a parent
-- of it: the hosts are those of rules without modifiers, exceptions aside.
structure Stays (lines : List Text) (i : Nat) (line : Text) : Prop where
  here : lines[i]? = some line
  first : ∀ host, entered parser line = some host → ∀ j < i, ∀ earlier, lines[j]? = some earlier → entered parser earlier ≠ some host
  top : ∀ host, entered parser line = some host → ∀ other ∈ lines, ∀ parent, entered parser other = some parent → ¬ Parent parent host

-- No two lines that stay get one form, remarks aside.
def Separate (lines : List Text) : Prop :=
  ∀ i j one other form, i < j → Stays parser lines i one → Stays parser lines j other →
    Form parser one form → Form parser other form → isCommentOrEmpty parser form = true

theorem labels_append (front back : Text) : (front ++ '.' :: back).splitOn '.' = front.splitOn '.' ++ back.splitOn '.' := by
  have joined : ['.'].intercalate [front,back] = front ++ '.' :: back := by
    rw [join_cons (List.cons_ne_nil _ _),List.intercalate_singleton]
  rw [← joined,splitOn_join (List.cons_ne_nil _ _)]
  simp

theorem labels_some (text : Text) : 1 ≤ (text.splitOn '.').length := List.length_pos_iff.mpr (List.splitOn_ne_nil '.' text)

theorem parent_exact (parent host : Text) : parent ∈ parentDomains host ↔ Parent parent host := by
  constructor
  · intro above
    obtain ⟨j,range,rfl⟩ := List.mem_map.mp above
    obtain ⟨low,high⟩ := List.mem_range'_1.mp range
    have whole : ['.'].intercalate (host.splitOn '.') = host := List.intercalate_splitOn '.'
    have front : (host.splitOn '.').take j ≠ [] := by
      intro none
      have length := congrArg List.length none
      rw [List.length_take,List.length_nil] at length
      omega
    have back : 2 ≤ ((host.splitOn '.').drop j).length := by
      rw [List.length_drop]
      omega
    refine ⟨?_,['.'].intercalate ((host.splitOn '.').take j),?_⟩
    · match parts : (host.splitOn '.').drop j,back with
      | first :: second :: rest,_ =>
        rw [join_cons (List.cons_ne_nil second rest)]
        simp
    · rw [← join_append front (List.ne_nil_of_length_pos (by omega)),List.take_append_drop,whole]
  · rintro ⟨dot,front,rfl⟩
    have filled := labels_some front
    have dotted : 2 ≤ (parent.splitOn '.').length := by
      obtain ⟨one,two,rfl⟩ := List.append_of_mem dot
      have here := labels_some one
      have there := labels_some two
      rw [labels_append,List.length_append]
      omega
    refine List.mem_map.mpr ⟨(front.splitOn '.').length,?_,?_⟩
    · rw [List.mem_range'_1,labels_append,List.length_append]
      omega
    · rw [labels_append,List.drop_left]
      exact List.intercalate_splitOn '.'

theorem stays_exact (lines : List Text) (i : Nat) (line : Text) :
    Stays parser lines i line ↔ lines[i]? = some line ∧ i ∈ (lines.zipIdx.foldl (Scan.visit parser) {}).finish := by
  rw [finish_exact parser (scan_exact parser lines)]
  constructor
  · rintro ⟨here,first,top⟩
    refine ⟨here,?_⟩
    cases own : entered parser line with
    | none => exact .inl ⟨line,here,own⟩
    | some host =>
      obtain ⟨inside,same⟩ := List.getElem?_eq_some_iff.mp here
      refine .inr ⟨host,List.findIdx?_eq_some_iff_getElem.mpr ⟨inside,?_,?_⟩,?_⟩
      · simp [named,same,own]
      · intro j before meets
        have earlier : lines[j]? = some lines[j] := List.getElem?_eq_getElem _
        exact first host own j before _ earlier (of_decide_eq_true meets)
      · intro parent above rule member entry
        exact top host own rule member parent entry ((parent_exact parent host).mp above)
  · rintro ⟨here,⟨rule,found,none⟩ | ⟨host,index,free⟩⟩
    · obtain rfl : rule = line := Option.some.inj (found.symm.trans here)
      constructor
      · exact here
      · intro host own
        rw [none] at own
        cases own
      · intro host own
        rw [none] at own
        cases own
    · obtain ⟨inside,meets,before⟩ := List.findIdx?_eq_some_iff_getElem.mp index
      obtain rfl : lines[i] = line := Option.some.inj ((List.getElem?_eq_getElem inside).symm.trans here)
      have entry : entered parser lines[i] = some host := of_decide_eq_true meets
      constructor
      · exact here
      · intro other own j earlier rule found again
        rw [entry] at own
        cases own
        obtain ⟨low,rfl⟩ := List.getElem?_eq_some_iff.mp found
        exact before j earlier (decide_eq_true again)
      · intro other own rule member parent again above
        rw [entry] at own
        cases own
        exact free parent ((parent_exact parent host).mpr above) rule member again

theorem optimizer_once (lines : List Text) :
    (ruleLines parser (Optimizer.executeSync parser lines)).Nodup ↔ Separate parser lines := by
  rw [Optimizer.executeSync_exact,removeRedundantRules,List.map_map,List.Nodup,ruleLines,List.pairwise_filter,List.pairwise_map,
    List.pairwise_filter,List.pairwise_iff_getElem]
  simp only [List.getElem_zipIdx,List.length_zipIdx,Function.comp_apply,Nat.zero_add,decide_eq_true_eq,Bool.not_eq_true']
  constructor
  · intro once i j one other form before first second made again
    obtain ⟨here,keeps⟩ := (stays_exact parser lines i one).mp first
    obtain ⟨there,stays⟩ := (stays_exact parser lines j other).mp second
    obtain ⟨low,rfl⟩ := List.getElem?_eq_some_iff.mp here
    obtain ⟨high,rfl⟩ := List.getElem?_eq_some_iff.mp there
    rw [form_exact] at made again
    by_contra rule
    have rule := Bool.eq_false_iff.mpr rule
    exact once i j low high before keeps stays (by rw [made]; exact rule) (by rw [again]; exact rule) (made.trans again.symm)
  · intro separate i j low high before keeps stays rule _ same
    have first := (stays_exact parser lines i lines[i]).mpr ⟨List.getElem?_eq_getElem low,keeps⟩
    have second := (stays_exact parser lines j lines[j]).mpr ⟨List.getElem?_eq_getElem high,stays⟩
    have remark := separate i j _ _ _ before first second ((form_exact parser _ _).mpr rfl) ((form_exact parser _ _).mpr same.symm)
    rw [rule] at remark
    cases remark

-- The plain case: every line is its own form already.
theorem formed_separate (lines : List Text) (once : (ruleLines parser lines).Nodup) (formed : ∀ line ∈ lines, Form parser line line) :
    Separate parser lines := by
  intro i j one other form before first second made again
  have own := (form_exact parser one one).mp (formed one (List.mem_of_getElem? first.here))
  have its := (form_exact parser other other).mp (formed other (List.mem_of_getElem? second.here))
  obtain rfl : one = form := own.symm.trans ((form_exact parser one form).mp made)
  obtain rfl : other = one := its.symm.trans ((form_exact parser other one).mp again)
  rw [List.Nodup,ruleLines,List.pairwise_filter,List.pairwise_iff_getElem] at once
  by_contra rule
  obtain ⟨low,here⟩ := List.getElem?_eq_some_iff.mp first.here
  obtain ⟨high,there⟩ := List.getElem?_eq_some_iff.mp second.here
  have differs := once i j low high before
  rw [here,there] at differs
  exact differs (by simpa using rule) (by simpa using rule) rfl

end Separation

section Behind
variable (parser : RuleParser) (exempts : Text → Bool) (earlier : TransformationRegistry)

theorem ruleLines_removeEmpty (lines : List Text) :
    ruleLines parser (RemoveEmptyLines.executeSync lines) = ruleLines parser lines := by
  rw [RemoveEmptyLines.executeSync,ruleLines,ruleLines,List.filter_filter]
  apply List.filter_congr
  intro line _
  cases own : isCommentOrEmpty parser line with
  | true => simp
  | false =>
    have some_ : (trim line).length ≠ 0 := of_decide_eq_false (Bool.or_eq_false_iff.mp own).2
    simpa using Nat.pos_of_ne_zero some_

theorem ruleLines_finalNewLine (lines : List Text) :
    ruleLines parser (InsertFinalNewLine.executeSync lines) = ruleLines parser lines := by
  have added : ruleLines parser (lines ++ [[]]) = ruleLines parser lines := by
    have empty : ∀ line ∈ [([] : Text)], isCommentOrEmpty parser line = true := by
      intro line member
      rw [List.mem_singleton.mp member,isCommentOrEmpty]
      exact Bool.or_true _
    rw [ruleLines_append,ruleLines_comments parser empty,List.append_nil]
  rw [InsertFinalNewLine.executeSync]
  split
  · exact added
  · split
    · exact added
    · rfl

-- Of all that runs behind Deduplicate only the optimizer matters.
theorem behind_exact (s : FilterService) (requested : List TransformationType) (lines : List Text) :
    ∃ result, applyTransformations (defaultPipeline parser exempts earlier s) (behindDeduplicate.filter (· ∈ requested)) lines =
        .ok result ∧
      ruleLines parser result =
        ruleLines parser (if .RuleOptimizer ∈ requested then Optimizer.executeSync parser lines else lines) := by
  have reported : (Conflicts.executeSync parser exempts {} lines).1 = lines := by
    rw [Conflicts.executeSync_reports parser exempts rfl]
  let optimized := if .RuleOptimizer ∈ requested then Optimizer.executeSync parser lines else lines
  let filled := if .RemoveEmptyLines ∈ requested then RemoveEmptyLines.executeSync optimized else optimized
  refine ⟨if .InsertFinalNewLine ∈ requested then InsertFinalNewLine.executeSync filled else filled,?_,?_⟩
  · by_cases conflicts : .ConflictDetection ∈ requested <;> by_cases optimizer : .RuleOptimizer ∈ requested <;>
      by_cases empty : .RemoveEmptyLines ∈ requested <;> by_cases final : .InsertFinalNewLine ∈ requested <;>
      simp [behindDeduplicate,applyTransformations,defaultPipeline,defaultTransformations,reported,conflicts,optimizer,empty,
        final,optimized,filled]
  · have emptied : ruleLines parser filled = ruleLines parser optimized := by
      by_cases empty : .RemoveEmptyLines ∈ requested
      · simp only [filled,if_pos empty,ruleLines_removeEmpty]
      · simp only [filled,if_neg empty]
    by_cases final : .InsertFinalNewLine ∈ requested
    · rw [if_pos final,ruleLines_finalNewLine,emptied]
    · rw [if_neg final,emptied]

variable {requested : List TransformationType}

-- Up to Deduplicate the rules are listed once.
theorem until_once (s : FilterService) (asked : .Deduplicate ∈ requested)
    (done : transform (defaultPipeline parser exempts earlier s) rules configuration (upToDeduplicate requested) = .ok lines) :
    (ruleLines parser lines).Nodup := by
  let before : List TransformationType := untilDeduplicate.dropLast.filter (· ∈ requested)
  have last : getOrderedTransformations (upToDeduplicate requested) = before ++ [.Deduplicate] := by
    have parts : untilDeduplicate = untilDeduplicate.dropLast ++ [.Deduplicate] := rfl
    have single : [TransformationType.Deduplicate].filter (· ∈ requested) = [.Deduplicate] := by simp [asked]
    rw [upTo_front,parts,List.filter_append,single]
  rw [transform,last] at done
  cases filtered : filterRules (defaultPipeline parser exempts earlier s) rules configuration with
  | error failure =>
    rw [filtered] at done
    cases done
  | ok kept =>
    rw [filtered,Except.bind,applyTransformations_append] at done
    cases ran : applyTransformations (defaultPipeline parser exempts earlier s) before kept with
    | error failure =>
      rw [ran] at done
      cases done
    | ok given =>
      rw [ran] at done
      obtain rfl : Deduplicate.executeSync parser given = lines := Except.ok.inj done
      exact (executeSync_once parser given).1

-- The result lists each rule once just where the optimizer is not asked for,
-- or no two of the lines that Deduplicate leaves have one form.
theorem transform_unique_exact (s : FilterService) (asked : .Deduplicate ∈ requested)
    (done : transform (defaultPipeline parser exempts earlier s) rules configuration requested = .ok result) :
    ∃ lines, transform (defaultPipeline parser exempts earlier s) rules configuration (upToDeduplicate requested) =
        .ok lines ∧
      ((ruleLines parser result).Nodup ↔ (.RuleOptimizer ∈ requested → Separate parser lines)) := by
  have whole : transform (defaultPipeline parser exempts earlier s) rules configuration requested =
      (transform (defaultPipeline parser exempts earlier s) rules configuration (upToDeduplicate requested)).bind
        (applyTransformations (defaultPipeline parser exempts earlier s) (behindDeduplicate.filter (· ∈ requested))) := by
    rw [transform,transform,ordered_parts requested]
    cases filterRules (defaultPipeline parser exempts earlier s) rules configuration with
    | error failure => rfl
    | ok kept => exact applyTransformations_append _ _ _ kept
  cases started : transform (defaultPipeline parser exempts earlier s) rules configuration (upToDeduplicate requested) with
  | error failure =>
    rw [whole,started] at done
    cases done
  | ok lines =>
    have once := until_once parser exempts earlier s asked started
    obtain ⟨final,ran,same⟩ := behind_exact parser exempts earlier s requested lines
    rw [whole,started,Except.bind,ran] at done
    obtain rfl := Except.ok.inj done
    refine ⟨lines,rfl,?_⟩
    rw [same]
    by_cases optimizer : .RuleOptimizer ∈ requested
    · rw [if_pos optimizer,optimizer_once]
      exact ⟨fun separate _ => separate,fun separate => separate optimizer⟩
    · rw [if_neg optimizer]
      exact ⟨fun _ asked => absurd asked optimizer,fun _ => once⟩

end Behind

section Runs

def noService : FilterService where
  regExp := fun _ => .error "Invalid regular expression".toList
  canonicalize := Char.toUpper
  parser := basicParser
  download := fun _ => .error "HTTP 404: Not Found".toList

def plainPipeline : TransformationPipeline := defaultPipeline basicParser (fun _ => false) (fun _ => none) noService

-- `||ads.com/` is rewritten to the rule beside it.
theorem slash_doubled : transform plainPipeline ["||ads.com/".toList,"||ads.com^".toList] {} [.Deduplicate,.RuleOptimizer] =
    .ok ["||ads.com^".toList,"||ads.com^".toList] := by
  decide

theorem duplicate_returns :
    ¬∀ (parser : RuleParser) exempts earlier s rules configuration (requested : List TransformationType) result,
      .Deduplicate ∈ requested →
      transform (defaultPipeline parser exempts earlier s) rules configuration requested = .ok result →
      (ruleLines parser result).Nodup := by
  intro always
  have once := always basicParser (fun _ => false) (fun _ => none) noService _ _ _ _ List.mem_cons_self slash_doubled
  exact absurd once (by decide)

theorem slash_unseparated :
    ∃ lines, transform plainPipeline ["||ads.com/".toList,"||ads.com^".toList] {} (upToDeduplicate [.Deduplicate,.RuleOptimizer]) =
        .ok lines ∧
      ((ruleLines basicParser ["||ads.com^".toList,"||ads.com^".toList]).Nodup ↔
        (.RuleOptimizer ∈ [TransformationType.Deduplicate,.RuleOptimizer] → Separate basicParser lines)) :=
  transform_unique_exact basicParser (fun _ => false) (fun _ => none) noService List.mem_cons_self slash_doubled

end Runs

end AdblockCompiler.RuleUniqueness
