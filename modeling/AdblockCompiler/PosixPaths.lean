import AdblockCompiler.JsText

-- Paths and what they denote from a working directory. A directory is the names
-- that lead to it from the root; nothing is looked up on a disk.
namespace PosixPaths
open JsText

variable (sep : Char → Bool)

def segments (path : Text) : List Text := path.splitOnP sep

-- A blank segment and a dot stay, two dots go up, and the root has no parent.
def visit (here : List Text) (segment : Text) : List Text :=
  if segment = [] ∨ segment = ['.'] then here
  else if segment = ['.','.'] then here.dropLast
  else here ++ [segment]

def origin (cwd : List Text) : Text → List Text
  | [] => cwd
  | c :: _ => if sep c then [] else cwd

def location (cwd : List Text) (path : Text) : List Text := (segments sep path).foldl visit (origin sep cwd path)

def resolve (cwd : List Text) (path : Text) : Option (List Text) := if path = [] then none else some (location sep cwd path)

example : resolve (· == '/') [['h']] "../a//./b/../c".toList = some [['a'],['c']] := by decide

def fromRoot (path : Text) : Bool := path.head?.any sep

theorem origin_exact (cwd : List Text) (path : Text) : origin sep cwd path = if fromRoot sep path then [] else cwd := by
  cases path with
  | nil => rfl
  | cons c path => rfl

theorem segments_some (path : Text) : segments sep path ≠ [] := List.splitOnP_ne_nil sep path

theorem segments_append (separates : sep c = true) (one two : Text) : segments sep (one ++ c :: two) = segments sep one ++ segments sep two :=
  List.splitOnP_append_cons one two separates

theorem blank_first (filled : path ≠ []) : (segments sep path).head? = some [] ↔ fromRoot sep path = true := by
  cases path with
  | nil => exact absurd rfl filled
  | cons c path =>
    obtain ⟨first,rest,shape⟩ := List.exists_cons_of_ne_nil (segments_some sep path)
    rw [segments] at shape
    rw [segments,List.splitOnP_cons_eq_if_modifyHead,shape]
    cases separates : sep c <;> simp [fromRoot,separates]

theorem segments_free (path : Text) : ∀ segment ∈ segments sep path, ∀ c ∈ segment, sep c = false := fun _ member => mem_splitOnP member

theorem segments_join (separates : sep mark = true) (some_ : names ≠ []) (free : ∀ name ∈ names, ∀ c ∈ name, sep c = false) :
    segments sep ([mark].intercalate names) = names := by
  rw [segments,splitOnP_join sep separates some_]
  have alone : ∀ name ∈ names, name.splitOnP sep = [name] := fun name member => List.splitOnP_eq_singleton (free name member)
  rw [List.flatMap_congr alone]
  simp

theorem join_blank : [mark].intercalate (names : List Text) = [] ↔ names = [] ∨ names = [[]] := by
  cases names with
  | nil => simp
  | cons name rest =>
    cases rest with
    | nil => simp
    | cons next rest => simp

def Plain (names : List Text) : Prop := ∀ name ∈ names, name ≠ ['.'] ∧ name ≠ ['.','.']

theorem visit_plain (plain : Plain names) (here : List Text) : names.foldl visit here = here ++ names.filter (· ≠ []) := by
  induction names generalizing here with
  | nil => simp
  | cons name rest ih =>
    obtain ⟨⟨dot,up⟩,others⟩ := List.forall_mem_cons.mp plain
    rw [List.foldl_cons,ih others]
    by_cases blank : name = []
    · simp [visit,blank]
    · simp [visit,blank,dot,up]

theorem visit_shortens (here : List Text) (segment : Text) : here.length ≤ (visit here segment).length+1 := by
  unfold visit
  split
  · omega
  · split
    · rw [List.length_dropLast]
      omega
    · rw [List.length_append]
      omega

theorem walk_shortens (segments : List Text) (here : List Text) : here.length ≤ (segments.foldl visit here).length+segments.length := by
  induction segments generalizing here with
  | nil => simp
  | cons segment rest ih =>
    have step := visit_shortens here segment
    have later := ih (visit here segment)
    rw [List.foldl_cons,List.length_cons]
    omega

-- No place is one that every working directory leads to by a relative path.
theorem relative_moves (relative : fromRoot sep path = false) (place : List Text) : ∃ cwd, location sep cwd path ≠ place := by
  refine ⟨List.replicate (place.length+(segments sep path).length+1) ['x'],?_⟩
  intro same
  have deep := walk_shortens (segments sep path) (List.replicate (place.length+(segments sep path).length+1) ['x'])
  rw [location,origin_exact,relative,if_neg Bool.false_ne_true] at same
  rw [same,List.length_replicate] at deep
  omega

end PosixPaths
