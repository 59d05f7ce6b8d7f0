import AdblockCompiler.LineTransformations

-- Values that go through passes in order. What one pass brings about is kept by
-- the passes behind it, and a pass finds nothing to do where its work is done.
namespace Passes

section Through
variable {ι α : Type} (pass : ι → α → α)

def through : List ι → α → α
  | [],a => a
  | i :: rest,a => through rest (pass i a)

theorem through_append (front back : List ι) (a : α) : through pass (front ++ back) a = through pass back (through pass front a) := by
  induction front generalizing a with
  | nil => rfl
  | cons i front ih => exact ih (pass i a)

theorem through_keeps {P : α → Prop} {passes : List ι} (step : ∀ i ∈ passes, ∀ a, P a → P (pass i a)) (holds : P a) :
    P (through pass passes a) := by
  induction passes generalizing a with
  | nil => exact holds
  | cons i passes ih =>
    obtain ⟨first,later⟩ := List.forall_mem_cons.mp step
    exact ih later (first a holds)

variable {pass} {done : ι → α → Prop} {passes : List ι}

-- Each pass does its work, and none undoes that of one before it.
theorem through_done (does : ∀ i ∈ passes, ∀ a, done i (pass i a))
    (keeps : passes.Pairwise fun i j => ∀ a, done i a → done i (pass j a)) (a : α) :
    ∀ i ∈ passes, done i (through pass passes a) := by
  induction passes generalizing a with
  | nil =>
    intro i member
    cases member
  | cons i passes ih =>
    obtain ⟨first,later⟩ := List.forall_mem_cons.mp does
    obtain ⟨own,others⟩ := List.pairwise_cons.mp keeps
    have kept : done i (through pass passes (pass i a)) := through_keeps pass own (first a)
    exact List.forall_mem_cons.mpr ⟨kept,ih later others (pass i a)⟩

theorem through_rests (rests : ∀ i ∈ passes, ∀ a, done i a → pass i a = a) (holds : ∀ i ∈ passes, done i a) :
    through pass passes a = a := by
  induction passes with
  | nil => rfl
  | cons i passes ih =>
    obtain ⟨first,later⟩ := List.forall_mem_cons.mp rests
    obtain ⟨own,others⟩ := List.forall_mem_cons.mp holds
    rw [through,first a own]
    exact ih later others

end Through

end Passes

-- A list that has gone through the pipeline and is given to it again, as the
-- lists of the sources are when the whole configuration is transformed.
namespace AdblockCompiler.SecondPass
open JsText Rules Config Pipeline LineTransformations SharedRegistry Passes
open Deduplicate (ruleLines isCommentOrEmpty)
open RuleUniqueness (RemoveEmptyLines.executeSync InsertFinalNewLine.executeSync)

section Lines

theorem blank_space (blank : StringUtils.isBlank c = true) : isSpace c = true := by
  simp only [StringUtils.isBlank,Bool.or_eq_true,decide_eq_true_eq] at blank
  obtain rfl | rfl := blank <;> rfl

theorem blank_separates (blank : StringUtils.isBlank c = true) : isDomainChar c = false := by
  simp [isDomainChar,blank_space blank]

-- What StringUtils.trim takes away stands at the ends.
theorem trim_parts (line : Text) : ∃ front back, (∀ c ∈ front, StringUtils.isBlank c = true) ∧ (∀ c ∈ back, StringUtils.isBlank c = true) ∧
    line = front ++ StringUtils.trim line ++ back := by
  refine ⟨line.takeWhile StringUtils.isBlank,(line.dropWhile StringUtils.isBlank).rtakeWhile StringUtils.isBlank,?_,?_,?_⟩
  · exact fun c member => List.mem_takeWhile_imp member
  · exact fun c member => List.mem_rtakeWhile_imp member
  · have back := List.rdropWhile_append_rtakeWhile (p := StringUtils.isBlank) (l := line.dropWhile StringUtils.isBlank)
    rw [StringUtils.trim,List.append_assoc,back,List.takeWhile_append_dropWhile]

theorem trim_trimmed_blanks (line : Text) : trim (StringUtils.trim line) = trim line := by
  obtain ⟨front,back,one,two,same⟩ := trim_parts line
  have padded := trim_padded (fun c member => blank_space (one c member)) (fun c member => blank_space (two c member))
    (StringUtils.trim line)
  rw [← same] at padded
  exact padded.symm

theorem convert_trimmed {newUrl : Text → Option Text} (same : convertNonAsciiToPunycode newUrl line = line) :
    convertNonAsciiToPunycode newUrl (StringUtils.trim line) = StringUtils.trim line := by
  obtain ⟨front,back,one,two,parts⟩ := trim_parts line
  generalize StringUtils.trim line = core at parts ⊢
  subst parts
  rw [convert_back newUrl (fun c member => blank_separates (two c member)),
    convert_front newUrl (fun c member => blank_separates (one c member))] at same
  exact List.append_cancel_left (List.append_cancel_right same)

-- What is taken away at the ends are characters of one kind, of either trim.
section Ends
variable {p : Char → Bool}

theorem ends_behind (plain : p c = false) (front rest : Text) : (front ++ c :: rest).rdropWhile p = front ++ c :: rest.rdropWhile p := by
  induction rest using List.reverseRecOn with
  | nil => rw [List.rdropWhile_concat_neg _ _ _ (by simp [plain]),List.rdropWhile_nil]
  | append_singleton rest d ih =>
    have whole : front ++ c :: (rest ++ [d]) = (front ++ c :: rest) ++ [d] := by simp
    rw [whole,List.rdropWhile_concat,List.rdropWhile_concat]
    split
    · exact ih
    · exact whole.symm

theorem ends_first (plain : p c = false) (rest : Text) : ((c :: rest).dropWhile p).rdropWhile p = c :: rest.rdropWhile p := by
  have started : (c :: rest).dropWhile p = c :: rest := by simp [plain]
  rw [started]
  exact ends_behind plain [] rest

theorem looks_trimmed (bang : p '!' = false) (hash : p '#' = false) (comment : Validation.looksLikeComment line = true) :
    Validation.looksLikeComment ((line.dropWhile p).rdropWhile p) = true := by
  simp only [Validation.looksLikeComment,Bool.or_eq_true,decide_eq_true_eq] at comment
  obtain ((exclaims | titled) | alone) | ruled := comment
  · obtain ⟨rest,rfl⟩ := startsWith_iff.mp exclaims
    rw [List.singleton_append,ends_first bang]
    simp [Validation.looksLikeComment,startsWith]
  · obtain ⟨rest,rfl⟩ := startsWith_iff.mp titled
    obtain ⟨back,shape⟩ : (' ' :: rest).rdropWhile p <+: ' ' :: rest := List.rdropWhile_prefix _ _
    rw [show "# ".toList ++ rest = '#' :: ' ' :: rest from rfl,ends_first hash]
    cases kept : (' ' :: rest).rdropWhile p with
    | nil => rfl
    | cons c more =>
      rw [kept,List.cons_append] at shape
      obtain ⟨rfl,-⟩ := List.cons.inj shape
      simp [Validation.looksLikeComment,startsWith]
  · subst alone
    rw [ends_first hash,List.rdropWhile_nil]
    rfl
  · obtain ⟨rest,rfl⟩ := startsWith_iff.mp ruled
    rw [show "####".toList ++ rest = '#' :: (['#','#'] ++ '#' :: rest) from rfl,ends_first hash,ends_behind hash]
    simp [Validation.looksLikeComment,startsWith]

end Ends

theorem trim_again (line : Text) : StringUtils.trim (StringUtils.trim line) = StringUtils.trim line := by
  cases started : line.dropWhile StringUtils.isBlank with
  | nil =>
    rw [StringUtils.trim,StringUtils.trim,started]
    rfl
  | cons c rest =>
    have plain : StringUtils.isBlank c = false := by
      have first := List.head_dropWhile_not StringUtils.isBlank (l := line) (by simp [started])
      simpa [started] using first
    have once : StringUtils.trim line = c :: rest.rdropWhile StringUtils.isBlank := by
      rw [StringUtils.trim,started]
      exact ends_behind plain [] rest
    rw [once,StringUtils.trim,ends_first plain,List.rdropWhile_idempotent]

theorem comment_looks (parser : RuleParser) (text : Text) : isComment parser text =
    match AGTreeParser.parse parser text with
    | some ast => decide (ast = .comment)
    | none => Validation.looksLikeComment text := rfl

-- A text that is no more than trimmed is a comment where the line is one.
theorem comment_ends {p : Char → Bool} (parser : RuleParser) (bang : p '!' = false) (hash : p '#' = false)
    (same : trim ((line.dropWhile p).rdropWhile p) = trim line) (comment : isComment parser line = true) :
    isComment parser ((line.dropWhile p).rdropWhile p) = true := by
  have parsed : AGTreeParser.parse parser ((line.dropWhile p).rdropWhile p) = AGTreeParser.parse parser line := by
    rw [AGTreeParser.parse,AGTreeParser.parse,same]
  rw [comment_looks] at comment ⊢
  rw [parsed]
  split
  · rename_i ast found
    rw [found] at comment
    exact comment
  · rename_i found
    rw [found] at comment
    exact looks_trimmed bang hash comment

theorem comment_trimmed (parser : RuleParser) (comment : isComment parser line = true) : isComment parser (StringUtils.trim line) = true :=
  comment_ends parser rfl rfl (trim_trimmed_blanks line) comment

end Lines

section Rests

-- A list whose rules are all accepted is validated already.
theorem validated_rests (v : Validation.Validator) (allowIp : Bool) {rules : List Text}
    (valid : ∀ line ∈ rules, (Validation.checked v allowIp none (line,0)).valid = true) :
    (Validation.executeSync v allowIp {} rules).2 = rules := by
  have loop (first : Nat) : (((rules.zipIdx first).foldr (Validation.Sweep.visit v allowIp none) {}).filtered = rules) ∧
      ((rules.zipIdx first).foldr (Validation.Sweep.visit v allowIp none) {}).previousRuleRemoved = false := by
    induction rules generalizing first with
    | nil => exact ⟨rfl,rfl⟩
    | cons line rules ih =>
      obtain ⟨own,others⟩ := List.forall_mem_cons.mp valid
      obtain ⟨kept,flag⟩ := ih others (first+1)
      have accepted : (Validation.checked v allowIp none (line,first)).valid = true :=
        (Validation.rule_source v allowIp none none (first+1) 1 (v.parse (trim line)) line).trans own
      rw [List.zipIdx_cons,List.foldr_cons,Validation.visit_exact]
      simp [accepted,flag,kept]
  exact (loop 0).1

theorem validated_does (v : Validation.Validator) (allowIp : Bool) (rules : List Text) :
    ∀ line ∈ (Validation.executeSync v allowIp {} rules).2, (Validation.checked v allowIp none (line,0)).valid = true := by
  rw [(Validation.executeSync_remarks v allowIp {} rules).1]
  intro line member
  obtain ⟨place,kept,rfl⟩ := List.mem_map.mp member
  have stayed := (List.mem_filter.mp kept).2
  unfold Validation.stays at stayed
  split at stayed
  · rename_i remark
    have silent : Validation.checked v allowIp none (place.1,0) = ⟨true,[]⟩ := Validation.remark_checked v allowIp none remark
    exact congrArg Validation.Verdict.valid silent
  · exact (Validation.rule_source v allowIp none none 1 (place.2+1) (v.parse (trim place.1)) place.1).trans stayed

theorem validated_subset (v : Validation.Validator) (allowIp : Bool) (rules : List Text) :
    ∀ line ∈ (Validation.executeSync v allowIp {} rules).2, line ∈ rules := by
  rw [(Validation.executeSync_remarks v allowIp {} rules).1]
  intro line member
  obtain ⟨place,kept,rfl⟩ := List.mem_map.mp member
  exact List.fst_mem_of_mem_zipIdx (List.mem_filter.mp kept).1

variable (parser : RuleParser)

-- A list without a repeated rule has no duplicates to lose.
theorem unique_rests {before lines : List Text} (once : (ruleLines parser (before ++ lines)).Nodup) :
    Deduplicate.survivors parser before lines = lines := by
  induction lines generalizing before with
  | nil => rfl
  | cons line after ih =>
    have whole : before ++ line :: after = before ++ [line] ++ after := by simp
    have apart : ∀ rule, isCommentOrEmpty parser rule = false → rule ∈ line :: after → rule ∉ before := by
      intro rule own later earlier
      rw [Deduplicate.ruleLines_append] at once
      exact List.disjoint_of_nodup_append once (Deduplicate.mem_ruleLines parser |>.mpr ⟨earlier,own⟩)
        (Deduplicate.mem_ruleLines parser |>.mpr ⟨later,own⟩)
    have stays : Deduplicate.stays parser before line after = true := by
      unfold Deduplicate.stays
      split
      · cases next : Deduplicate.nextRule parser after with
        | none => rfl
        | some rule =>
          have fresh := apart rule (Deduplicate.nextRule_own parser next) (List.mem_cons_of_mem line (List.mem_of_find?_eq_some next))
          simpa using fresh
      · rename_i own
        simpa using apart line (by simpa using own) List.mem_cons_self
    rw [Deduplicate.survivors,if_pos stays,ih (whole ▸ once)]

theorem deduplicated_rests {rules : List Text} (once : (ruleLines parser rules).Nodup) : Deduplicate.executeSync parser rules = rules := by
  rw [Deduplicate.executeSync_survivors]
  exact unique_rests parser once

theorem deduplicated_subset (rules : List Text) : ∀ line ∈ Deduplicate.executeSync parser rules, line ∈ rules := by
  rw [(Deduplicate.survivors_exact parser rules).1]
  intro line member
  obtain ⟨place,kept,rfl⟩ := List.mem_map.mp member
  exact List.fst_mem_of_mem_zipIdx (List.mem_filter.mp kept).1

end Rests

-- The transformations whose work a second pass finds done; the last two are
-- looked at together, since the one takes away what the other adds.
def cleaning : List TransformationType :=
  [.ConvertToAscii,.TrimLines,.RemoveComments,.Validate,.ValidateAllowIp,.Deduplicate,.ConflictDetection]

def finishing : List TransformationType := [.RemoveEmptyLines,.InsertFinalNewLine]

section Pass
variable (validator : Validation.Validator) (parser : RuleParser) (exempts : Text → Bool) (newUrl : Text → Option Text)

def pass (type : TransformationType) (rules : List Text) : List Text :=
  match defaultRegistry validator parser exempts newUrl type with
  | some transformation => (transformation rules).toOption.getD rules
  | none => rules

theorem pass_runs (cleans : type ∈ cleaning ++ finishing) :
    defaultRegistry validator parser exempts newUrl type = some fun rules => .ok (pass validator parser exempts newUrl type rules) := by
  revert type
  simp only [cleaning,finishing,List.cons_append,List.nil_append,List.forall_mem_cons]
  refine ⟨rfl,rfl,rfl,rfl,rfl,rfl,rfl,rfl,rfl,?_⟩
  intro type member
  cases member

theorem passes_run (s : FilterService) {types : List TransformationType} (cleans : ∀ type ∈ types, type ∈ cleaning ++ finishing) (rules : List Text) :
    applyTransformations ⟨s,defaultRegistry validator parser exempts newUrl⟩ types rules =
      .ok (through (pass validator parser exempts newUrl) types rules) := by
  induction types generalizing rules with
  | nil => rfl
  | cons type types ih =>
    obtain ⟨own,others⟩ := List.forall_mem_cons.mp cleans
    rw [applyTransformations]
    dsimp only
    rw [pass_runs validator parser exempts newUrl own]
    exact ih others _

-- What a transformation sees to, in each line and in the list.
def lineDone : TransformationType → Text → Prop
  | .ConvertToAscii,line => isComment parser line = true ∨ convertNonAsciiToPunycode newUrl line = line
  | .TrimLines,line => StringUtils.trim line = line
  | .RemoveComments,line => isComment parser line = false
  | .Validate,line => (Validation.checked validator false none (line,0)).valid = true
  | .ValidateAllowIp,line => (Validation.checked validator true none (line,0)).valid = true
  | _,_ => True

structure Done (type : TransformationType) (rules : List Text) : Prop where
  lines : ∀ line ∈ rules, lineDone validator parser newUrl type line
  once : type = .Deduplicate → (ruleLines parser rules).Nodup

variable {validator parser exempts newUrl}

theorem converted_rests (done : isComment parser line = true ∨ convertNonAsciiToPunycode newUrl line = line) :
    convertedLine parser newUrl line = line := by
  unfold convertedLine
  split
  · rfl
  · rename_i other
    split
    · rfl
    · exact done.resolve_left fun comment => other (by simp [comment])

theorem converted_does (hostnames : ∀ url hostname, newUrl url = some hostname → Ascii hostname) (line : Text) :
    isComment parser (convertedLine parser newUrl line) = true ∨
      convertNonAsciiToPunycode newUrl (convertedLine parser newUrl line) = convertedLine parser newUrl line := by
  unfold convertedLine
  split
  · rename_i left_
    cases comment : isComment parser line with
    | true => exact .inl rfl
    | false =>
      have none : line = [] := by simpa [comment] using left_
      exact .inr (none ▸ convertRun_nil newUrl)
  · split
    · rename_i ascii
      have plain : Ascii line := ascii_iff.mpr (by simpa using ascii)
      exact .inr (ascii_converted newUrl (fun c member => by cases member) plain)
    · exact .inr (convert_again newUrl hostnames line)

theorem conflicts_rest (rules : List Text) : pass validator parser exempts newUrl .ConflictDetection rules = rules := by
  have reported : (Conflicts.executeSync parser exempts {} rules).1 = rules := by
    rw [Conflicts.executeSync_reports parser exempts rfl]
  have same := ConflictDetection.executeSync_rules parser exempts {} [] rules
  rw [reported] at same
  exact same

theorem map_rests {f : Text → Text} {rules : List Text} (same : ∀ line ∈ rules, f line = line) : rules.map f = rules :=
  (List.map_congr_left same).trans (List.map_id' rules)

theorem pass_rests (cleans : type ∈ cleaning) (rules : List Text) (done : Done validator parser newUrl type rules) :
    pass validator parser exempts newUrl type rules = rules := by
  cases type with
  | ConvertToAscii => exact map_rests fun line member => converted_rests (done.lines line member)
  | TrimLines => exact map_rests done.lines
  | RemoveComments => exact List.filter_eq_self.mpr fun line member => by simpa [lineDone] using done.lines line member
  | Validate => exact validated_rests validator false done.lines
  | ValidateAllowIp => exact validated_rests validator true done.lines
  | Deduplicate => exact deduplicated_rests parser (done.once rfl)
  | ConflictDetection => exact conflicts_rest rules
  | RemoveEmptyLines | InsertFinalNewLine | Compress | RemoveModifiers | InvertAllow | RuleOptimizer => simp [cleaning] at cleans

theorem pass_does (hostnames : ∀ url hostname, newUrl url = some hostname → Ascii hostname) (cleans : type ∈ cleaning) (rules : List Text) :
    Done validator parser newUrl type (pass validator parser exempts newUrl type rules) := by
  cases type with
  | ConvertToAscii => exact ⟨List.forall_mem_map.mpr fun line _ => converted_does hostnames line,nofun⟩
  | TrimLines => exact ⟨List.forall_mem_map.mpr fun line _ => trim_again line,nofun⟩
  | RemoveComments => exact ⟨fun line member => by simpa [lineDone] using (List.mem_filter.mp member).2,nofun⟩
  | Validate => exact ⟨validated_does validator false rules,nofun⟩
  | ValidateAllowIp => exact ⟨validated_does validator true rules,nofun⟩
  | Deduplicate => exact ⟨fun _ _ => trivial,fun _ => (Deduplicate.executeSync_once parser rules).1⟩
  | ConflictDetection => exact ⟨fun _ _ => trivial,nofun⟩
  | RemoveEmptyLines | InsertFinalNewLine | Compress | RemoveModifiers | InvertAllow | RuleOptimizer => simp [cleaning] at cleans

theorem keeps_subset (other : type ≠ .Deduplicate) {rules result : List Text} (subset : ∀ line ∈ result, line ∈ rules)
    (done : Done validator parser newUrl type rules) : Done validator parser newUrl type result :=
  ⟨fun line member => done.lines line (subset line member),fun same => absurd same other⟩

-- Behind TrimLines lines are only taken away.
theorem pass_subset (takes : type ∈ [TransformationType.RemoveComments,.Validate,.ValidateAllowIp,.Deduplicate,.ConflictDetection])
    (rules : List Text) : ∀ line ∈ pass validator parser exempts newUrl type rules, line ∈ rules := by
  cases type with
  | RemoveComments => exact fun line member => List.mem_of_mem_filter member
  | Validate => exact validated_subset validator false rules
  | ValidateAllowIp => exact validated_subset validator true rules
  | Deduplicate => exact deduplicated_subset parser rules
  | ConflictDetection => exact fun line member => conflicts_rest rules ▸ member
  | RemoveEmptyLines | InsertFinalNewLine | Compress | RemoveModifiers | InvertAllow | RuleOptimizer | ConvertToAscii | TrimLines =>
    simp at takes

theorem trim_keeps (rules : List Text) (done : Done validator parser newUrl .ConvertToAscii rules) :
    Done validator parser newUrl .ConvertToAscii (pass validator parser exempts newUrl .TrimLines rules) := by
  refine ⟨List.forall_mem_map.mpr ?_,nofun⟩
  intro line member
  cases done.lines line member with
  | inl comment => exact .inl (comment_trimmed parser comment)
  | inr same => exact .inr (convert_trimmed same)

theorem cleaning_keeps : cleaning.Pairwise fun one other => ∀ rules,
    Done validator parser newUrl one rules → Done validator parser newUrl one (pass validator parser exempts newUrl other rules) := by
  have takes {type other : TransformationType} (lines : type ≠ .Deduplicate)
      (member : other ∈ [TransformationType.RemoveComments,.Validate,.ValidateAllowIp,.Deduplicate,.ConflictDetection]) (rules : List Text)
      (done : Done validator parser newUrl type rules) : Done validator parser newUrl type (pass validator parser exempts newUrl other rules) :=
    keeps_subset lines (pass_subset member rules) done
  refine .cons ?_ (.cons ?_ (.cons ?_ (.cons ?_ (.cons ?_ (.cons ?_ (.cons nofun .nil))))))
  · refine List.forall_mem_cons.mpr ⟨trim_keeps,?_⟩
    exact fun other member => takes nofun member
  · exact fun other member => takes nofun member
  · exact fun other member => takes nofun (List.mem_cons_of_mem _ member)
  · exact fun other member => takes nofun (List.mem_of_mem_drop (i := 2) member)
  · exact fun other member => takes nofun (List.mem_of_mem_drop (i := 3) member)
  · intro other member rules done
    obtain rfl := List.mem_singleton.mp member
    rwa [conflicts_rest]

theorem empty_uncommented (empty : parser [] ≠ some .comment) : isComment parser [] = false := by
  have parsed : AGTreeParser.parse parser [] = parser [] := rfl
  unfold isComment
  rw [parsed]
  split
  · rename_i ast found
    have other : ast ≠ .comment := fun same => empty (same ▸ found)
    simpa using other
  · rfl

theorem empty_done (empty : parser [] ≠ some .comment) (type : TransformationType) : lineDone validator parser newUrl type [] := by
  cases type with
  | ConvertToAscii => exact .inr (convertRun_nil newUrl)
  | RemoveComments => exact empty_uncommented empty
  | Validate | ValidateAllowIp | TrimLines => rfl
  | RemoveEmptyLines | InsertFinalNewLine | Compress | RemoveModifiers | InvertAllow | RuleOptimizer | Deduplicate | ConflictDetection =>
    trivial

theorem mem_finalNewLine {rules : List Text} (member : line ∈ InsertFinalNewLine.executeSync rules) : line ∈ rules ∨ line = [] := by
  have added (inside : line ∈ rules ++ [[]]) : line ∈ rules ∨ line = [] :=
    (List.mem_append.mp inside).imp_right List.mem_singleton.mp
  unfold InsertFinalNewLine.executeSync at member
  split at member
  · exact added member
  · split at member
    · exact added member
    · exact .inl member

theorem finishing_keeps (empty : parser [] ≠ some .comment) (last : other ∈ finishing) (rules : List Text)
    (done : Done validator parser newUrl type rules) : Done validator parser newUrl type (pass validator parser exempts newUrl other rules) := by
  simp only [finishing,List.mem_cons,List.not_mem_nil,or_false] at last
  obtain rfl | rfl := last
  · refine ⟨fun line member => done.lines line (List.mem_of_mem_filter member),?_⟩
    intro same
    have kept := RuleUniqueness.ruleLines_removeEmpty parser rules
    exact kept.symm ▸ done.once same
  · refine ⟨?_,?_⟩
    · intro line member
      cases mem_finalNewLine member with
      | inl inside => exact done.lines line inside
      | inr added => exact added ▸ empty_done empty type
    · intro same
      have kept := RuleUniqueness.ruleLines_finalNewLine parser rules
      exact kept.symm ▸ done.once same

-- Blank lines and the final one, asked for by two passes.
theorem removed_again (rules : List Text) :
    RemoveEmptyLines.executeSync (RemoveEmptyLines.executeSync rules) = RemoveEmptyLines.executeSync rules := by
  simp [RemoveEmptyLines.executeSync,List.filter_filter]

theorem removed_inserted (rules : List Text) :
    RemoveEmptyLines.executeSync (InsertFinalNewLine.executeSync rules) = RemoveEmptyLines.executeSync rules := by
  have added : RemoveEmptyLines.executeSync (rules ++ [[]]) = RemoveEmptyLines.executeSync rules := by
    simp [RemoveEmptyLines.executeSync,show trim [] = [] from rfl]
  unfold InsertFinalNewLine.executeSync
  split
  · exact added
  · split
    · exact added
    · rfl

theorem inserted_again (rules : List Text) :
    InsertFinalNewLine.executeSync (InsertFinalNewLine.executeSync rules) = InsertFinalNewLine.executeSync rules := by
  have ends : InsertFinalNewLine.executeSync (rules ++ [[]]) = rules ++ [[]] := by
    simp [InsertFinalNewLine.executeSync,show trim [] = [] from rfl]
  cases last : rules.getLast? with
  | none =>
    have once : InsertFinalNewLine.executeSync rules = rules ++ [[]] := by simp [InsertFinalNewLine.executeSync,last]
    rw [once,ends]
  | some line =>
    by_cases blank : trim line = []
    · have once : InsertFinalNewLine.executeSync rules = rules := by simp [InsertFinalNewLine.executeSync,last,blank]
      rw [once,once]
    · have once : InsertFinalNewLine.executeSync rules = rules ++ [[]] := by simp [InsertFinalNewLine.executeSync,last,blank]
      rw [once,ends]

theorem finishing_exact (asked : List TransformationType) (rules : List Text) :
    through (pass validator parser exempts newUrl) (finishing.filter (· ∈ asked)) rules =
      (if .InsertFinalNewLine ∈ asked then InsertFinalNewLine.executeSync else id)
        ((if .RemoveEmptyLines ∈ asked then RemoveEmptyLines.executeSync else id) rules) := by
  have inserts (rules : List Text) : pass validator parser exempts newUrl .InsertFinalNewLine rules = InsertFinalNewLine.executeSync rules := rfl
  have removes (rules : List Text) : pass validator parser exempts newUrl .RemoveEmptyLines rules = RemoveEmptyLines.executeSync rules := rfl
  by_cases empty : .RemoveEmptyLines ∈ asked <;> by_cases final : .InsertFinalNewLine ∈ asked <;>
    simp [finishing,through,empty,final,inserts,removes]

theorem finished_again {requested more : List TransformationType} (again : ∀ type ∈ more, type ∈ requested)
    (ends : .RemoveEmptyLines ∈ more → .InsertFinalNewLine ∈ requested → .InsertFinalNewLine ∈ more) (rules : List Text) :
    through (pass validator parser exempts newUrl) (finishing.filter (· ∈ more))
        (through (pass validator parser exempts newUrl) (finishing.filter (· ∈ requested)) rules) =
      through (pass validator parser exempts newUrl) (finishing.filter (· ∈ requested)) rules := by
  simp only [finishing_exact]
  by_cases removes : .RemoveEmptyLines ∈ more
  · rw [if_pos removes,if_pos (again _ removes)]
    by_cases inserts : .InsertFinalNewLine ∈ requested
    · rw [if_pos inserts,if_pos (ends removes inserts),removed_inserted,removed_again]
    · have neither : .InsertFinalNewLine ∉ more := fun asked => inserts (again _ asked)
      rw [if_neg inserts,if_neg neither]
      exact removed_again rules
  · rw [if_neg removes]
    by_cases inserts : .InsertFinalNewLine ∈ more
    · rw [if_pos inserts,if_pos (again _ inserts)]
      exact inserted_again _
    · rw [if_neg inserts]
      rfl

theorem ordered_cleaning {requested : List TransformationType} (cleans : ∀ type ∈ requested, type ∈ cleaning ++ finishing) :
    getOrderedTransformations requested = cleaning.filter (· ∈ requested) ++ finishing.filter (· ∈ requested) := by
  have parts : cleaning ++ finishing = requestOrder.filter (· ∈ cleaning ++ finishing) := by decide
  rw [← List.filter_append,parts,List.filter_filter]
  refine List.filter_congr ?_
  intro type _
  by_cases asked : type ∈ requested
  · simp [asked,cleans type asked]
  · simp [asked]

variable (validator parser exempts newUrl)

-- What the asked for transformations make of the lines they are given.
def cleaned (requested : List TransformationType) (rules : List Text) : List Text :=
  through (pass validator parser exempts newUrl) (finishing.filter (· ∈ requested))
    (through (pass validator parser exempts newUrl) (cleaning.filter (· ∈ requested)) rules)

theorem cleaned_run (s : FilterService) {requested : List TransformationType} (cleans : ∀ type ∈ requested, type ∈ cleaning ++ finishing)
    (rules : List Text) :
    applyTransformations ⟨s,defaultRegistry validator parser exempts newUrl⟩ (getOrderedTransformations requested) rules =
      .ok (cleaned validator parser exempts newUrl requested rules) := by
  rw [ordered_cleaning cleans,passes_run,through_append,cleaned]
  intro type member
  exact List.mem_append.mpr ((List.mem_append.mp member).imp List.mem_of_mem_filter List.mem_of_mem_filter)

-- The cleaning that was asked for is done in what is returned.
theorem cleaned_done (empty : parser [] ≠ some .comment) (hostnames : ∀ url hostname, newUrl url = some hostname → Ascii hostname)
    (requested : List TransformationType) (rules : List Text) (cleans : type ∈ cleaning) (asked : type ∈ requested) :
    Done validator parser newUrl type (cleaned validator parser exempts newUrl requested rules) := by
  have member : type ∈ cleaning.filter (· ∈ requested) := List.mem_filter.mpr ⟨cleans,by simpa using asked⟩
  refine through_keeps (pass validator parser exempts newUrl) (P := Done validator parser newUrl type) ?_ ?_
  · exact fun other last rules done => finishing_keeps empty (List.mem_of_mem_filter last) rules done
  · exact through_done (fun type member => pass_does hostnames (List.mem_of_mem_filter member))
      (cleaning_keeps.sublist List.filter_sublist) rules type member

theorem cleaned_again (empty : parser [] ≠ some .comment) (hostnames : ∀ url hostname, newUrl url = some hostname → Ascii hostname)
    {requested more : List TransformationType} (again : ∀ type ∈ more, type ∈ requested)
    (ends : .RemoveEmptyLines ∈ more → .InsertFinalNewLine ∈ requested → .InsertFinalNewLine ∈ more) (rules : List Text) :
    cleaned validator parser exempts newUrl more (cleaned validator parser exempts newUrl requested rules) =
      cleaned validator parser exempts newUrl requested rules := by
  have rests : through (pass validator parser exempts newUrl) (cleaning.filter (· ∈ more))
      (cleaned validator parser exempts newUrl requested rules) = cleaned validator parser exempts newUrl requested rules := by
    refine through_rests (fun type member => pass_rests (List.mem_of_mem_filter member)) ?_
    intro type member
    have asked : type ∈ more := by simpa using (List.mem_filter.mp member).2
    exact cleaned_done validator parser exempts newUrl empty hostnames requested rules (List.mem_of_mem_filter member) (again type asked)
  rw [cleaned,rests]
  exact finished_again again ends _

-- What the first pass returns comes back as it is from any second pass that
-- asks for no more, unless that removes a final line and does not put it back.
theorem second_pass (empty : parser [] ≠ some .comment) (hostnames : ∀ url hostname, newUrl url = some hostname → Ascii hostname)
    (s : FilterService) {requested more : List TransformationType} (cleans : ∀ type ∈ requested, type ∈ cleaning ++ finishing)
    (again : ∀ type ∈ more, type ∈ requested)
    (ends : .RemoveEmptyLines ∈ more → .InsertFinalNewLine ∈ requested → .InsertFinalNewLine ∈ more)
    {rules result : List Text} {source configuration : Filterable}
    (first : transform ⟨s,defaultRegistry validator parser exempts newUrl⟩ rules source requested = .ok result)
    (passes : filterRules ⟨s,defaultRegistry validator parser exempts newUrl⟩ result configuration = .ok result) :
    transform ⟨s,defaultRegistry validator parser exempts newUrl⟩ result configuration more = .ok result := by
  unfold transform at first ⊢
  cases filtered : filterRules ⟨s,defaultRegistry validator parser exempts newUrl⟩ rules source with
  | error failure =>
    rw [filtered] at first
    cases first
  | ok kept =>
    rw [filtered,Except.bind,cleaned_run validator parser exempts newUrl s cleans] at first
    obtain rfl := Except.ok.inj first
    rw [passes,Except.bind,cleaned_run validator parser exempts newUrl s fun type asked => cleans type (again type asked),
      cleaned_again validator parser exempts newUrl empty hostnames again ends]

end Pass

section Runs

-- The validator is not asked for.
def noValidator : Validation.Validator := ⟨fun _ => none,fun _ => ⟨none,false,none⟩,fun _ => none,fun _ => []⟩

def sampleUrl (url : Text) : Option Text :=
  if url = "http://пример.рф".toList then some "xn--e1afmkfd.xn--p1ai".toList else none

def sampleRequest : List TransformationType := [.ConvertToAscii,.TrimLines,.RemoveComments,.Deduplicate,.RemoveEmptyLines,.InsertFinalNewLine]

theorem cyrillic_second_pass :
    transform ⟨RuleUniqueness.noService,defaultRegistry noValidator basicParser (fun _ => false) sampleUrl⟩
      ["||xn--e1afmkfd.xn--p1ai^".toList,[]] {} [.ConvertToAscii,.Deduplicate,.InsertFinalNewLine] =
    .ok ["||xn--e1afmkfd.xn--p1ai^".toList,[]] := by
  have first : transform ⟨RuleUniqueness.noService,defaultRegistry noValidator basicParser (fun _ => false) sampleUrl⟩
      [" ||пример.рф^".toList,"! note".toList,"||пример.рф^".toList,[]] {} sampleRequest =
      .ok ["||xn--e1afmkfd.xn--p1ai^".toList,[]] := by decide
  have hostnames : ∀ url hostname, sampleUrl url = some hostname → Ascii hostname := by
    intro url hostname read
    unfold sampleUrl at read
    split at read
    · cases read
      simp [Ascii]
    · cases read
  exact second_pass noValidator basicParser (fun _ => false) sampleUrl (by decide) hostnames RuleUniqueness.noService
    (by decide) (by decide) (by decide) first rfl

end Runs

end AdblockCompiler.SecondPass
