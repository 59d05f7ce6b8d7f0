import AdblockCompiler.SecondPass

-- The rules that a list states, before and behind the cleaning transformations.
namespace AdblockCompiler.CleanedRules
open JsText Rules Config Pipeline LineTransformations SecondPass Passes
open Deduplicate (ruleLines isCommentOrEmpty)
open RuleUniqueness (RemoveEmptyLines.executeSync InsertFinalNewLine.executeSync)

-- A rule is the trimmed text of a line that is no comment.
def States (parser : RuleParser) (rules : List Text) (rule : Text) : Prop :=
  rule ≠ [] ∧ isComment parser rule = false ∧ ∃ line ∈ rules, trim line = rule

-- The two readings of one tree: what the validation knows as a comment, as an
-- empty line or not at all is no other rule.
structure Agrees (validator : Validation.Validator) (parser : RuleParser) : Prop where
  thrown : ∀ text, validator.parse text = none → parser text = none
  comment : ∀ text, validator.parse text = some .comment → parser text = some .comment
  empty : ∀ text, validator.parse text = some .empty → text = []

-- What the asked for transformations want of a rule.
def accepts (validator : Validation.Validator) : TransformationType → Text → Prop
  | .Validate,rule => (Validation.checked validator false none (rule,0)).valid = true
  | .ValidateAllowIp,rule => (Validation.checked validator true none (rule,0)).valid = true
  | _,_ => True

-- The text of a rule is written into the errors; its tree decides.
section Texts
variable (v : Validation.Validator) (allowIp : Bool) (one other : Text) (first second : Nat)

theorem hostname_text (hostname : Text) (hasLimitModifier : Bool) :
    (Validation.validateHostname v allowIp none hostname one hasLimitModifier first).valid =
      (Validation.validateHostname v allowIp none hostname other hasLimitModifier second).valid := by
  unfold Validation.validateHostname
  simp only [apply_ite Validation.Verdict.valid]
  rfl

theorem hostnames_text (hostnames : List Text) :
    (Validation.validateHostnames v allowIp none one first hostnames).valid =
      (Validation.validateHostnames v allowIp none other second hostnames).valid := by
  induction hostnames with
  | nil => rfl
  | cons hostname rest ih =>
    simp only [Validation.validateHostnames,hostname_text v allowIp one other first second,apply_ite Validation.Verdict.valid,ih]

theorem pattern_text (rule : NetworkRule) (hasLimitModifier : Bool) :
    (Validation.validatePattern v allowIp none rule hasLimitModifier one first).valid =
      (Validation.validatePattern v allowIp none rule hasLimitModifier other second).valid := by
  simp only [Validation.validatePattern]
  cases Validation.indexOf rule.pattern ['^'] 0 with
  | none =>
    simp only [apply_ite Validation.Verdict.valid]
    rfl
  | some sep =>
    simp only [apply_ite Validation.Verdict.valid,hostname_text v allowIp one other first second]
    rfl

theorem network_text (rule : NetworkRule) :
    (Validation.validateNetworkRule v allowIp none rule one first).valid =
      (Validation.validateNetworkRule v allowIp none rule other second).valid := by
  unfold Validation.validateNetworkRule
  split
  · rfl
  · exact pattern_text v allowIp one other first second rule _

theorem tree_text (blank : trim one = [] ↔ trim other = []) (parsed : Option Validation.AnyRule)
    (looks : parsed = none → Validation.looksLikeComment one = Validation.looksLikeComment other) :
    (Validation.isValidParsedRule v allowIp none parsed one first).valid =
      (Validation.isValidParsedRule v allowIp none parsed other second).valid := by
  unfold Validation.isValidParsedRule
  by_cases empty : trim one = []
  · rw [if_pos empty,if_pos (blank.mp empty)]
  · rw [if_neg empty,if_neg (fun same => empty (blank.mpr same))]
    cases parsed with
    | none =>
      simp only [looks rfl,apply_ite Validation.Verdict.valid]
      rfl
    | some tree =>
      cases tree with
      | host hostnames =>
        simp only [Validation.validateHostRule,apply_ite Validation.Verdict.valid,hostnames_text v allowIp one other first second]
      | network rule => exact network_text v allowIp one other first second rule
      | empty | comment | invalid | cosmetic | unknown => rfl

end Texts

section Lines
variable {validator : Validation.Validator} {parser : RuleParser}

theorem comment_line (comment : isComment parser line = true) : isComment parser (trim line) = true :=
  comment_ends parser rfl rfl (trim_trim line) comment

-- The line of a rule is no comment and not blank.
theorem line_states (some_ : trim line ≠ []) (other : isComment parser (trim line) = false) : isCommentOrEmpty parser line = false := by
  have own : isComment parser line = false := by
    cases comment : isComment parser line with
    | false => rfl
    | true =>
      rw [comment_line comment] at other
      cases other
  simp [isCommentOrEmpty,own,Deduplicate.isEmpty,some_]

theorem unread_plain (agrees : Agrees validator parser) (other : isComment parser (trim line) = false)
    (thrown : validator.parse (trim line) = none) :
    Validation.looksLikeComment line = false ∧ Validation.looksLikeComment (trim line) = false := by
  have unread : AGTreeParser.parse parser (trim line) = none := by
    rw [AGTreeParser.parse,trim_trim]
    exact agrees.thrown _ thrown
  rw [comment_looks,unread] at other
  refine ⟨?_,other⟩
  cases looks : Validation.looksLikeComment line with
  | false => rfl
  | true =>
    have trimmed : Validation.looksLikeComment (trim line) = true := looks_trimmed (p := isSpace) rfl rfl looks
    rw [trimmed] at other
    cases other

-- The validation says of a line what it says of its rule.
theorem checked_trimmed (agrees : Agrees validator parser) (other : isComment parser (trim line) = false) (allowIp : Bool) :
    (Validation.checked validator allowIp none (line,0)).valid = (Validation.checked validator allowIp none (trim line,0)).valid := by
  unfold Validation.checked
  dsimp only
  rw [trim_trim]
  refine tree_text validator allowIp line (trim line) 1 1 (by rw [trim_trim]) _ ?_
  intro thrown
  obtain ⟨own,trimmed⟩ := unread_plain agrees other thrown
  rw [own,trimmed]

-- A rule is no remark of the validation, which keeps it for its own sake.
theorem rule_unremarked (agrees : Agrees validator parser) (some_ : trim line ≠ []) (other : isComment parser (trim line) = false)
    (index : Nat) : Validation.isRemark validator (line,index) = false := by
  unfold Validation.isRemark Validation.isCommentOrEmpty
  dsimp only
  rw [if_neg some_]
  cases parsed : validator.parse (trim line) with
  | none => exact (unread_plain agrees other parsed).1
  | some tree =>
    have comments : tree ≠ .comment := by
      intro same
      have read := agrees.comment (trim line) (same ▸ parsed)
      rw [comment_looks,AGTreeParser.parse,trim_trim,read] at other
      cases other
    have fills : tree ≠ .empty := fun same => some_ (agrees.empty (trim line) (same ▸ parsed))
    simp [comments,fills]

theorem mem_validated (agrees : Agrees validator parser) (allowIp : Bool) (rules : List Text) (some_ : trim line ≠ [])
    (other : isComment parser (trim line) = false) :
    line ∈ (Validation.executeSync validator allowIp {} rules).2 ↔
      line ∈ rules ∧ (Validation.checked validator allowIp none (trim line,0)).valid = true := by
  rw [← checked_trimmed agrees other]
  constructor
  · intro member
    exact ⟨validated_subset validator allowIp rules line member,validated_does validator allowIp rules line member⟩
  · intro both
    obtain ⟨member,valid⟩ := both
    obtain ⟨index,place⟩ := List.mem_iff_getElem?.mp member
    rw [(Validation.executeSync_remarks validator allowIp {} rules).1]
    refine List.mem_map.mpr ⟨(line,index),List.mem_filter.mpr ⟨List.mem_zipIdx_iff_getElem?.mpr place,?_⟩,rfl⟩
    unfold Validation.stays
    rw [rule_unremarked agrees some_ other,if_neg Bool.false_ne_true]
    exact (Validation.rule_source validator allowIp none none (index+1) 1 (validator.parse (trim line)) line).trans valid

end Lines

section Cleaned
variable {validator : Validation.Validator} {parser : RuleParser} {exempts : Text → Bool} {newUrl : Text → Option Text}

-- The cleaning that leaves the text of a rule as it is.
def stating : List TransformationType :=
  [.TrimLines,.RemoveComments,.Validate,.ValidateAllowIp,.Deduplicate,.ConflictDetection,.RemoveEmptyLines,.InsertFinalNewLine]

theorem states_lines {Q : Text → Prop} {rules result : List Text}
    (same : ∀ line, trim line ≠ [] → isComment parser (trim line) = false → (line ∈ result ↔ line ∈ rules ∧ Q (trim line))) (rule : Text) :
    States parser result rule ↔ States parser rules rule ∧ Q rule := by
  constructor
  · intro states
    obtain ⟨some_,other,line,member,rfl⟩ := states
    obtain ⟨inside,holds⟩ := (same line some_ other).mp member
    exact ⟨⟨some_,other,line,inside,rfl⟩,holds⟩
  · intro both
    obtain ⟨⟨some_,other,line,inside,rfl⟩,holds⟩ := both
    exact ⟨some_,other,line,(same line some_ other).mpr ⟨inside,holds⟩,rfl⟩

theorem trim_states (rules : List Text) (rule : Text) :
    States parser (TrimLines.executeSync rules) rule ↔ States parser rules rule := by
  have lines : (∃ line ∈ TrimLines.executeSync rules, trim line = rule) ↔ ∃ line ∈ rules, trim line = rule := by
    simp [TrimLines.executeSync,trim_trimmed_blanks]
  rw [States,States,lines]

theorem pass_lines (agrees : Agrees validator parser) (cleans : type ∈ stating) (other_ : type ≠ .TrimLines) (rules : List Text)
    (some_ : trim line ≠ []) (other : isComment parser (trim line) = false) :
    line ∈ pass validator parser exempts newUrl type rules ↔ line ∈ rules ∧ accepts validator type (trim line) := by
  cases type with
  | TrimLines => exact absurd rfl other_
  | RemoveComments =>
    have own := (Bool.or_eq_false_iff.mp (line_states some_ other)).1
    exact List.mem_filter.trans (and_congr_right fun _ => iff_of_true (by simp [own]) trivial)
  | Validate => exact mem_validated agrees false rules some_ other
  | ValidateAllowIp => exact mem_validated agrees true rules some_ other
  | Deduplicate =>
    have listed := (Deduplicate.executeSync_once parser rules).2 line
    rw [Deduplicate.mem_ruleLines,Deduplicate.mem_ruleLines] at listed
    have own := line_states some_ other
    exact ⟨fun member => ⟨(listed.mp ⟨member,own⟩).1,trivial⟩,fun both => (listed.mpr ⟨both.1,own⟩).1⟩
  | ConflictDetection =>
    rw [conflicts_rest]
    exact (and_iff_left trivial).symm
  | RemoveEmptyLines => exact List.mem_filter.trans (and_congr_right fun _ => iff_of_true (by simpa [List.length_pos_iff] using some_) trivial)
  | InsertFinalNewLine =>
    have kept : line ∈ rules → line ∈ InsertFinalNewLine.executeSync rules := by
      intro member
      unfold InsertFinalNewLine.executeSync
      split
      · exact List.mem_append_left _ member
      · split
        · exact List.mem_append_left _ member
        · exact member
    have filled : line ≠ [] := by
      intro empty
      rw [empty] at some_
      exact some_ rfl
    exact ⟨fun member => ⟨(mem_finalNewLine member).resolve_right filled,trivial⟩,fun both => kept both.1⟩
  | ConvertToAscii | Compress | RemoveModifiers | InvertAllow | RuleOptimizer => simp [stating] at cleans

theorem pass_states (agrees : Agrees validator parser) (cleans : type ∈ stating) (rules : List Text) (rule : Text) :
    States parser (pass validator parser exempts newUrl type rules) rule ↔ States parser rules rule ∧ accepts validator type rule := by
  by_cases trims : type = .TrimLines
  · subst trims
    exact (trim_states rules rule).trans (and_iff_left trivial).symm
  · exact states_lines (Q := accepts validator type) (fun line some_ other => pass_lines agrees cleans trims rules some_ other) rule

theorem passes_state (agrees : Agrees validator parser) {types : List TransformationType} (cleans : ∀ type ∈ types, type ∈ stating)
    (rules : List Text) (rule : Text) :
    States parser (through (pass validator parser exempts newUrl) types rules) rule ↔
      States parser rules rule ∧ ∀ type ∈ types, accepts validator type rule := by
  induction types generalizing rules with
  | nil => simp [through]
  | cons type types ih =>
    obtain ⟨own,others⟩ := List.forall_mem_cons.mp cleans
    rw [through,ih others,pass_states agrees own,List.forall_mem_cons,and_assoc]

theorem mem_ordered (requested : List TransformationType) (type : TransformationType) :
    type ∈ getOrderedTransformations requested ↔ type ∈ requested := by
  have listed : type ∈ requestOrder := by cases type <;> decide
  simp [getOrderedTransformations,listed]

theorem stating_known : ∀ type ∈ stating, type ∈ cleaning ++ finishing := by decide

-- Of the rules that the patterns let pass, the result states those that the
-- validation accepts, where it is asked for, and no other rule.
theorem transform_states (agrees : Agrees validator parser) (s : FilterService) {requested : List TransformationType}
    (cleans : ∀ type ∈ requested, type ∈ stating) {rules result : List Text} {configuration : Filterable}
    (done : transform ⟨s,defaultRegistry validator parser exempts newUrl⟩ rules configuration requested = .ok result) :
    ∃ kept, filterRules ⟨s,defaultRegistry validator parser exempts newUrl⟩ rules configuration = .ok kept ∧
      ∀ rule, States parser result rule ↔ States parser kept rule ∧ ∀ type ∈ requested, accepts validator type rule := by
  unfold transform at done
  cases filtered : filterRules ⟨s,defaultRegistry validator parser exempts newUrl⟩ rules configuration with
  | error failure =>
    rw [filtered] at done
    cases done
  | ok kept =>
    refine ⟨kept,rfl,?_⟩
    rw [filtered,Except.bind,passes_run] at done
    · obtain rfl := Except.ok.inj done
      intro rule
      rw [passes_state agrees]
      · simp only [mem_ordered]
      · exact fun type member => cleans type ((mem_ordered requested type).mp member)
    · exact fun type member => stating_known type (cleans type ((mem_ordered requested type).mp member))

end Cleaned

section Runs

def sampleTree (text : Text) : Option Validation.AnyRule :=
  if text = [] then some .empty
  else
    match basicParser text with
    | some .comment => some .comment
    | some .other => some .cosmetic
    | some (.network rule) => some (.network rule)
    | some (.host hostnames) => some (.host hostnames)
    | none => none

def sampleHost (hostname : Text) : Validation.ParsedHost :=
  if hostname = "com".toList then ⟨some hostname,false,some "com".toList⟩
  else if hostname = "ads.com".toList then ⟨some hostname,false,some "com".toList⟩
  else ⟨none,false,none⟩

def sampleValidator : Validation.Validator := ⟨sampleTree,sampleHost,fun _ => none,fun _ => []⟩

theorem sampleTree_agrees : Agrees sampleValidator basicParser := by
  have read (text : Text) : sampleValidator.parse text = sampleTree text := rfl
  refine ⟨?_,?_,?_⟩
  · intro text found
    rw [read,sampleTree] at found
    split at found
    · cases found
    · split at found
      all_goals first | assumption | cases found
  · intro text found
    rw [read,sampleTree] at found
    split at found
    · cases found
    · split at found
      all_goals first | assumption | cases found
  · intro text found
    rw [read,sampleTree] at found
    split at found
    · assumption
    · split at found
      all_goals cases found

theorem suffix_dropped :
    ∃ kept, filterRules ⟨RuleUniqueness.noService,defaultRegistry sampleValidator basicParser (fun _ => false) sampleUrl⟩
        [" ||ads.com^".toList,"! note".toList,"||com^".toList,"||ads.com^".toList] {} = .ok kept ∧
      ∀ rule, States basicParser ["||ads.com^".toList] rule ↔ States basicParser kept rule ∧
        ∀ type ∈ [TransformationType.TrimLines,.RemoveComments,.Validate,.Deduplicate], accepts sampleValidator type rule :=
  transform_states sampleTree_agrees RuleUniqueness.noService (by decide) (by decide)

end Runs

end AdblockCompiler.CleanedRules
