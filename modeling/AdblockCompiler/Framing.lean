import Mathlib

-- A stream of blocks, each ended by a doubled mark, that is read in pieces which
-- know nothing of the blocks.
namespace Framing

variable {α σ : Type}

def push (item : α) : List (List α) × List α → List (List α) × List α
  | ([],rest) => ([],item :: rest)
  | (block :: blocks,rest) => ((item :: block) :: blocks,rest)

theorem push_append (item : α) (first : List (List α) × List α) (blocks : List (List α)) (rest : List α) (some_ : first.1 ≠ []) :
    push item (first.1 ++ blocks,rest) = ((push item first).1 ++ blocks,rest) := by
  obtain ⟨_ | ⟨block,others⟩,last⟩ := first
  · exact absurd rfl some_
  · rfl

theorem push_all (line block : List α) (blocks : List (List α)) (last : List α) :
    line.foldr push (block :: blocks,last) = ((line ++ block) :: blocks,last) := by
  induction line with
  | nil => rfl
  | cons item line ih =>
    rw [List.foldr_cons,ih]
    rfl

variable [DecidableEq α]

-- The blocks that are complete, and what is behind the last of them.
def cut (mark : α) : List α → List (List α) × List α
  | [] => ([],[])
  | [item] => ([],[item])
  | item :: next :: rest =>
    if item = mark ∧ next = mark then ([] :: (cut mark rest).1,(cut mark rest).2) else push item (cut mark (next :: rest))

variable {mark : α}

theorem cut_end (text : List α) : cut mark (mark :: mark :: text) = ([] :: (cut mark text).1,(cut mark text).2) := if_pos ⟨rfl,rfl⟩

theorem cut_item (other : item ≠ mark) (text : List α) : cut mark (item :: text) = push item (cut mark text) := by
  cases text with
  | nil => rfl
  | cons next rest => exact if_neg fun both => other both.1

theorem cut_single (other : item ≠ mark) (text : List α) : cut mark (mark :: item :: text) = push mark (cut mark (item :: text)) :=
  if_neg fun both => other both.2

theorem cut_nothing (text : List α) (nothing : (cut mark text).1 = []) : (cut mark text).2 = text := by
  induction text using cut.induct mark with
  | case1 => rfl
  | case2 item => rfl
  | case3 item next rest both ih =>
    obtain ⟨rfl,rfl⟩ := both
    rw [cut_end] at nothing
    cases nothing
  | case4 item next rest apart ih =>
    rw [cut,if_neg apart] at nothing ⊢
    cases first : cut mark (next :: rest) with
    | mk blocks last =>
      cases blocks with
      | nil =>
        rw [first] at ih
        exact congrArg (item :: ·) (ih rfl)
      | cons block blocks =>
        rw [first] at nothing
        cases nothing

theorem cut_append (text later : List α) :
    cut mark (text ++ later) = ((cut mark text).1 ++ (cut mark ((cut mark text).2 ++ later)).1,(cut mark ((cut mark text).2 ++ later)).2) := by
  induction text using cut.induct mark with
  | case1 => rfl
  | case2 item => rfl
  | case3 item next rest both ih =>
    obtain ⟨rfl,rfl⟩ := both
    rw [List.cons_append,List.cons_append,cut_end,ih,cut_end]
    rfl
  | case4 item next rest apart ih =>
    have one : cut mark (item :: next :: rest) = push item (cut mark (next :: rest)) := if_neg apart
    have two : cut mark (item :: (next :: rest ++ later)) = push item (cut mark (next :: rest ++ later)) := if_neg apart
    rw [List.cons_append,two,one]
    by_cases nothing : (cut mark (next :: rest)).1 = []
    · have left := cut_nothing (next :: rest) nothing
      have pushed : push item (cut mark (next :: rest)) = ([],item :: next :: rest) := by
        rw [show cut mark (next :: rest) = ([],next :: rest) from Prod.ext nothing left]
        rfl
      rw [pushed]
      exact two.symm
    · rw [ih,push_append item _ _ _ nothing]
      generalize cut mark (next :: rest) = first at nothing ⊢
      obtain ⟨_ | ⟨block,blocks⟩,last⟩ := first
      · exact absurd rfl nothing
      · rfl

theorem cut_left (text : List α) : (cut mark (cut mark text).2).1 = [] := by
  have whole : (cut mark (text ++ [])).1 = (cut mark text).1 ++ (cut mark ((cut mark text).2 ++ [])).1 :=
    congrArg Prod.fst (cut_append text [])
  rw [List.append_nil,List.append_nil] at whole
  exact List.self_eq_append_right.mp whole

theorem cut_plain (plain : mark ∉ line) (text : List α) : cut mark (line ++ text) = line.foldr push (cut mark text) := by
  induction line with
  | nil => rfl
  | cons item line ih =>
    obtain ⟨other,rest⟩ := List.ne_and_not_mem_of_not_mem_cons plain
    rw [List.cons_append,cut_item (Ne.symm other),ih rest]
    rfl

theorem cut_block (lines : List (List α)) (some_ : lines ≠ []) (plain : ∀ line ∈ lines, line ≠ [] ∧ mark ∉ line) (text : List α) :
    cut mark ([mark].intercalate lines ++ mark :: mark :: text) =
      ([mark].intercalate lines :: (cut mark text).1,(cut mark text).2) := by
  induction lines with
  | nil => exact absurd rfl some_
  | cons line rest ih =>
    obtain ⟨first,others⟩ := List.forall_mem_cons.mp plain
    cases rest with
    | nil =>
      rw [List.intercalate_singleton,cut_plain first.2,cut_end,push_all,List.append_nil]
    | cons next rest =>
      have filled : next :: rest ≠ [] := List.cons_ne_nil next rest
      obtain ⟨item,tail,parts⟩ := List.exists_cons_of_ne_nil (others next List.mem_cons_self).1
      have other : item ≠ mark := fun same => (others next List.mem_cons_self).2 (by simp [parts,same])
      have inner := ih filled others
      have opens : ∃ tail, [mark].intercalate (next :: rest) ++ mark :: mark :: text = item :: tail := by
        cases rest with
        | nil => exact ⟨_,by rw [List.intercalate_singleton,parts]; rfl⟩
        | cons third rest =>
          exact ⟨_,by rw [List.intercalate_cons_of_ne_nil (List.cons_ne_nil third rest),parts]; rfl⟩
      obtain ⟨tail,opened⟩ := opens
      rw [List.intercalate_cons_of_ne_nil filled,List.append_assoc,List.append_assoc,cut_plain first.2,List.singleton_append,
        opened,cut_single other,← opened,inner]
      rw [List.append_assoc line,List.singleton_append]
      exact push_all line (mark :: [mark].intercalate (next :: rest)) _ _

-- A reader takes the complete blocks and keeps the rest for the next piece.
def feed (mark : α) (take : σ → List α → σ) (reader : σ × List α) (piece : List α) : σ × List α :=
  ((cut mark (reader.2 ++ piece)).1.foldl take reader.1,(cut mark (reader.2 ++ piece)).2)

-- However the stream is cut into pieces, the reader takes the blocks that all
-- of it has.
theorem feed_pieces (take : σ → List α → σ) (state : σ) (kept : List α) (nothing : (cut mark kept).1 = []) (pieces : List (List α)) :
    pieces.foldl (feed mark take) (state,kept) =
      ((cut mark (kept ++ pieces.flatten)).1.foldl take state,(cut mark (kept ++ pieces.flatten)).2) := by
  induction pieces generalizing state kept with
  | nil =>
    rw [List.flatten_nil,List.append_nil,nothing,cut_nothing kept nothing]
    rfl
  | cons piece pieces ih =>
    rw [List.foldl_cons,feed,ih _ _ (cut_left _),List.flatten_cons,← List.append_assoc,cut_append (kept ++ piece),List.foldl_append]

end Framing
