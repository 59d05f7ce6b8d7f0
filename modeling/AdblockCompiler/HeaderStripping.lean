import AdblockCompiler.Compilers

namespace AdblockCompiler.Compilers
open JsText

def isBare (line : Text) : Bool := trim line = ['!']

-- Neither blank nor a remark: the header ends here.
def isContent (line : Text) : Bool := trim line ≠ [] && !startsWith (trim line) ['!']

section Steps

-- What the loop makes of one line: whether it goes, and the two variables behind
-- it.
def drops (inHeaderSection : Bool) (count : Nat) (line : Text) : Bool :=
  isMetadataHeader line || (isBare line && inHeaderSection && 0 < count)

def advances (inHeaderSection : Bool) (count : Nat) (line : Text) : Bool × Nat :=
  if isMetadataHeader line then (inHeaderSection,count)
  else if isBare line && inHeaderSection then (inHeaderSection,count+1)
  else if isContent line then (false,0)
  else if startsWith (trim line) ['!'] && !isBare line then (inHeaderSection,0)
  else (inHeaderSection,count)

theorem strip_step (inHeaderSection : Bool) (count : Nat) (line : Text) (rest : List Text) :
    stripLoop inHeaderSection count (line :: rest) =
      let behind := stripLoop (advances inHeaderSection count line).1 (advances inHeaderSection count line).2 rest
      if drops inHeaderSection count line then behind else line :: behind := by
  rw [stripLoop,drops,advances,isBare,isContent]
  dsimp only
  cases header : isMetadataHeader line with
  | true => simp
  | false =>
    by_cases bare : trim line = ['!']
    · cases inHeaderSection with
      | true => simp [bare]
      | false => simp [bare,startsWith]
    · by_cases content : trim line ≠ [] ∧ startsWith (trim line) ['!'] = false
      · simp [bare,content]
      · have other : (decide (trim line ≠ []) && !startsWith (trim line) ['!']) = false := by
          rw [Bool.eq_false_iff,Ne,Bool.and_eq_true,decide_eq_true_eq,Bool.not_eq_true']
          exact content
        simp only [bare,content,other]
        cases startsWith (trim line) ['!'] <;> simp [bare]

theorem bare_plain (bare : isBare line = true) : isMetadataHeader line = false ∧ isContent line = false := by
  have same : trim line = ['!'] := of_decide_eq_true bare
  unfold isMetadataHeader isContent
  rw [same]
  decide

theorem content_plain (content : isContent line = true) : isMetadataHeader line = false ∧ isBare line = false := by
  obtain ⟨-,other⟩ := Bool.and_eq_true_iff.mp content
  rw [Bool.not_eq_true'] at other
  have unlike (mark : Text) (remark : startsWith mark ['!'] = true) : startsWith (trim line) mark = false := by
    by_contra starts
    obtain ⟨rest,same⟩ := startsWith_iff.mp (Bool.not_eq_false _ ▸ starts)
    obtain ⟨behind,rfl⟩ := startsWith_iff.mp remark
    rw [same,List.append_assoc,List.singleton_append] at other
    cases other
  refine ⟨?_,?_⟩
  · apply List.any_eq_false.mpr
    intro mark member
    have remarks : METADATA_HEADER_PREFIXES.all (startsWith · ['!']) = true := by decide
    rw [unlike mark (List.all_eq_true.mp remarks mark member)]
    decide
  · apply decide_eq_false
    intro same
    rw [same] at other
    cases other

-- Where a line goes, the section is the same and the counter has not gone back.
theorem next_dropped (dropped : drops inHeaderSection count line = true) :
    (advances inHeaderSection count line).1 = inHeaderSection ∧ count ≤ (advances inHeaderSection count line).2 := by
  unfold drops at dropped
  unfold advances
  cases header : isMetadataHeader line with
  | true => simp
  | false =>
    rw [header,Bool.false_or,Bool.and_eq_true] at dropped
    rw [if_neg Bool.false_ne_true,if_pos dropped.1]
    exact ⟨rfl,Nat.le_succ count⟩

-- With a smaller counter no more lines go.
theorem next_mono (inHeaderSection : Bool) (line : Text) (fewer : less ≤ count) :
    (advances inHeaderSection less line).1 = (advances inHeaderSection count line).1 ∧
      (advances inHeaderSection less line).2 ≤ (advances inHeaderSection count line).2 := by
  unfold advances
  split
  · exact ⟨rfl,fewer⟩
  · split
    · exact ⟨rfl,Nat.succ_le_succ fewer⟩
    · split
      · exact ⟨rfl,Nat.le_refl 0⟩
      · split
        · exact ⟨rfl,Nat.le_refl 0⟩
        · exact ⟨rfl,fewer⟩

theorem drops_mono (fewer : less ≤ count) (kept : drops inHeaderSection count line = false) :
    drops inHeaderSection less line = false := by
  unfold drops at kept ⊢
  obtain ⟨header,marker⟩ := Bool.or_eq_false_iff.mp kept
  rw [header,Bool.false_or]
  cases bare : isBare line && inHeaderSection with
  | false => rfl
  | true =>
    rw [bare,Bool.true_and,decide_eq_false_iff_not] at marker
    rw [Bool.true_and,decide_eq_false_iff_not]
    omega

end Steps

section Loops

theorem loop_again (inHeaderSection : Bool) (fewer : less ≤ count) (lines : List Text) :
    stripLoop inHeaderSection less (stripLoop inHeaderSection count lines) = stripLoop inHeaderSection count lines := by
  induction lines generalizing inHeaderSection less count with
  | nil => rfl
  | cons line rest ih =>
    rw [strip_step inHeaderSection count line rest]
    dsimp only
    cases dropped : drops inHeaderSection count line with
    | true =>
      obtain ⟨same,further⟩ := next_dropped dropped
      rw [if_pos rfl,same]
      exact ih inHeaderSection (Nat.le_trans fewer further)
    | false =>
      obtain ⟨same,less_⟩ := next_mono inHeaderSection line fewer
      rw [if_neg Bool.false_ne_true,strip_step,drops_mono fewer dropped,same]
      dsimp only
      rw [if_neg Bool.false_ne_true,ih _ less_]

theorem loop_filter (inHeaderSection : Bool) (count : Nat) (lines : List Text) :
    (stripLoop inHeaderSection count lines).filter (fun line => !isBare line) =
      lines.filter fun line => !isMetadataHeader line && !isBare line := by
  induction lines generalizing inHeaderSection count with
  | nil => rfl
  | cons line rest ih =>
    rw [strip_step]
    dsimp only
    cases dropped : drops inHeaderSection count line with
    | true =>
      rw [if_pos rfl,ih]
      have gone : ¬(!isMetadataHeader line && !isBare line) = true := by
        unfold drops at dropped
        cases header : isMetadataHeader line with
        | true => simp
        | false =>
          rw [header,Bool.false_or,Bool.and_assoc,Bool.and_eq_true] at dropped
          simp [dropped.1]
      exact (List.filter_cons_of_neg (p := fun line => !isMetadataHeader line && !isBare line) gone).symm
    | false =>
      have plain := (Bool.or_eq_false_iff.mp dropped).1
      rw [if_neg Bool.false_ne_true,List.filter_cons,ih,List.filter_cons,plain]
      rfl

-- Out of the header only metadata lines go.
theorem loop_outside (count : Nat) (lines : List Text) :
    stripLoop false count lines = lines.filter fun line => !isMetadataHeader line := by
  induction lines generalizing count with
  | nil => rfl
  | cons line rest ih =>
    have outside : (advances false count line).1 = false := by
      unfold advances
      rw [Bool.and_false]
      split
      · rfl
      · split
        · next none => cases none
        · split
          · rfl
          · split <;> rfl
    have dropped : drops false count line = isMetadataHeader line := by
      unfold drops
      rw [Bool.and_false,Bool.false_and,Bool.or_false]
    rw [strip_step,outside,dropped,ih,List.filter_cons]
    cases isMetadataHeader line <;> rfl

-- The first line that is neither blank nor a remark parts the list.
theorem loop_parts (content : isContent line = true) (inHeaderSection : Bool) (count : Nat) (front back : List Text) :
    ∃ kept, kept.Sublist front ∧ stripLoop inHeaderSection count (front ++ line :: back) =
      kept ++ line :: back.filter fun line => !isMetadataHeader line := by
  induction front generalizing inHeaderSection count with
  | nil =>
    obtain ⟨plain,other⟩ := content_plain content
    have stays : drops inHeaderSection count line = false := by simp [drops,plain,other]
    have out : advances inHeaderSection count line = (false,0) := by simp [advances,plain,other,content]
    refine ⟨[],List.Sublist.refl [],?_⟩
    rw [List.nil_append,strip_step,stays,out,loop_outside]
    rfl
  | cons first rest ih =>
    obtain ⟨kept,sub,same⟩ := ih (advances inHeaderSection count first).1 (advances inHeaderSection count first).2
    rw [List.cons_append,strip_step]
    dsimp only
    rw [same]
    cases drops inHeaderSection count first with
    | true => exact ⟨kept,sub.cons first,rfl⟩
    | false => exact ⟨first :: kept,sub.cons_cons first,rfl⟩

theorem loop_sublist (inHeaderSection : Bool) (count : Nat) (lines : List Text) :
    (stripLoop inHeaderSection count lines).Sublist lines := by
  induction lines generalizing inHeaderSection count with
  | nil => exact List.Sublist.refl []
  | cons line rest ih =>
    rw [strip_step]
    dsimp only
    split
    · exact (ih _ _).cons line
    · exact (ih _ _).cons_cons line

theorem loop_kept (fixed : stripLoop inHeaderSection count (line :: rest) = line :: rest) :
    drops inHeaderSection count line = false ∧
      stripLoop (advances inHeaderSection count line).1 (advances inHeaderSection count line).2 rest = rest := by
  rw [strip_step] at fixed
  dsimp only at fixed
  cases dropped : drops inHeaderSection count line with
  | true =>
    rw [dropped,if_pos rfl] at fixed
    have size := (loop_sublist (advances inHeaderSection count line).1 (advances inHeaderSection count line).2 rest).length_le
    rw [fixed,List.length_cons] at size
    omega
  | false =>
    rw [dropped,if_neg Bool.false_ne_true] at fixed
    exact ⟨rfl,(List.cons.inj fixed).2⟩

-- A result without the bare markers it begins with is a result again.
theorem loop_trimmed (lines : List Text) (count : Nat) (fixed : stripLoop true count lines = lines) :
    stripLoop true 0 (lines.dropWhile isBare) = lines.dropWhile isBare := by
  induction lines generalizing count with
  | nil => rfl
  | cons line rest ih =>
    cases bare : isBare line with
    | true =>
      have plain := (bare_plain bare).1
      have inside : (advances true count line).1 = true := by simp [advances,plain,bare]
      obtain ⟨-,behind⟩ := loop_kept fixed
      rw [inside] at behind
      rw [List.dropWhile_cons_of_pos bare]
      exact ih _ behind
    | false =>
      have again := loop_again true (Nat.zero_le count) (line :: rest)
      rw [fixed] at again
      rw [List.dropWhile_cons_of_neg (by rw [bare]; decide)]
      exact again

end Loops

section Stripping

theorem stripUpstreamHeaders_bare (lines : List Text) : stripUpstreamHeaders lines = (stripLoop true 0 lines).dropWhile isBare := rfl

theorem strip_again (lines : List Text) : stripUpstreamHeaders (stripUpstreamHeaders lines) = stripUpstreamHeaders lines := by
  have fixed := loop_trimmed (stripLoop true 0 lines) 0 (loop_again true (Nat.le_refl 0) lines)
  rw [stripUpstreamHeaders_bare,stripUpstreamHeaders_bare,fixed]
  exact List.dropWhile_idempotent isBare _

theorem strip_filter (lines : List Text) :
    (stripUpstreamHeaders lines).filter (fun line => !isBare line) =
      lines.filter fun line => !isMetadataHeader line && !isBare line := by
  rw [← loop_filter true 0,stripUpstreamHeaders_bare]
  conv => rhs; rw [← List.takeWhile_append_dropWhile (p := isBare) (l := stripLoop true 0 lines),List.filter_append]
  have none : ((stripLoop true 0 lines).takeWhile isBare).filter (fun line => !isBare line) = [] := by
    apply List.filter_eq_nil_iff.mpr
    intro line member
    rw [List.mem_takeWhile_imp member]
    decide
  rw [none,List.nil_append]

theorem strip_head (same : stripUpstreamHeaders lines = first :: rest) : isBare first = false := by
  have head := List.head?_dropWhile_not isBare (stripLoop true 0 lines)
  rw [← stripUpstreamHeaders_bare,same] at head
  exact head

theorem strip_parts (content : isContent line = true) (front back : List Text) :
    ∃ kept, kept.Sublist front ∧
      stripUpstreamHeaders (front ++ line :: back) = kept ++ line :: back.filter fun line => !isMetadataHeader line := by
  obtain ⟨kept,sub,same⟩ := loop_parts content true 0 front back
  refine ⟨kept.dropWhile isBare,(List.dropWhile_sublist _).trans sub,?_⟩
  have other := (content_plain content).2
  rw [stripUpstreamHeaders_bare,same,List.dropWhile_append]
  split
  · next empty =>
    rw [List.isEmpty_iff.mp empty,List.dropWhile_cons_of_neg (by rw [other]; decide)]
    rfl
  · rfl

-- What the stripping leaves: no metadata, every line that is no bare marker, and
-- everything else from the first rule on.
theorem strip_keeps (lines : List Text) :
    (stripUpstreamHeaders lines).Sublist lines ∧
      (stripUpstreamHeaders lines).filter (fun line => !isBare line) =
        lines.filter (fun line => !isMetadataHeader line && !isBare line) ∧
      (∀ line ∈ stripUpstreamHeaders lines, isMetadataHeader line = false) ∧
      (∀ front line back, lines = front ++ line :: back → isContent line = true → ∃ kept, kept.Sublist front ∧
        stripUpstreamHeaders lines = kept ++ line :: back.filter fun line => !isMetadataHeader line) ∧
      (∀ first rest, stripUpstreamHeaders lines = first :: rest → isBare first = false) ∧
      stripUpstreamHeaders (stripUpstreamHeaders lines) = stripUpstreamHeaders lines := by
  obtain ⟨sub,clean⟩ := strip_exact lines
  refine ⟨sub,strip_filter lines,clean,?_,fun first rest => strip_head,strip_again lines⟩
  rintro front line back rfl content
  exact strip_parts content front back

example : stripUpstreamHeaders ["! Title: Ads".toList,"!".toList,"! by hand".toList,"||a.com^".toList,"!".toList,"! Expires: 1 day".toList] =
    ["! by hand".toList,"||a.com^".toList,"!".toList] := by decide +kernel

end Stripping

end AdblockCompiler.Compilers
