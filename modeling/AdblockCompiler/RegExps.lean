import AdblockCompiler.JsText

-- Regular expressions of letters, alternatives and groups, without flags:
-- their source text and what they find.
namespace RegExps
open JsText

inductive Node where
  | empty
  | char (c : Char)
  | seq (first second : Node)
  | alt (one other : Node)
  deriving DecidableEq, Repr

-- A matcher is given what must hold of the text behind the match.
def Node.run : Node → (Text → Bool) → Text → Bool
  | .empty,next,text => next text
  | .char _,_,[] => false
  | .char c,next,d :: text => c == d && next text
  | .seq first second,next,text => first.run (second.run next) text
  | .alt one other,next,text => one.run next text || other.run next text

def Node.test (node : Node) (text : Text) : Bool := text.tails.any (node.run fun _ => true)

def syntaxCharacters : Text := ['^','$','\\','.','*','+','?','(',')','[',']','{','}','|']

def isSyntax (c : Char) : Bool := syntaxCharacters.contains c

section Reading

-- Terms and alternatives are kept last first while a group is read.
structure Frame where
  alternatives : List Node
  terms : List Node

def sequence (terms : List Node) : Node := terms.foldl (fun later node => .seq node later) .empty

def Frame.term (frame : Frame) (node : Node) : Frame := ⟨frame.alternatives,node :: frame.terms⟩
def Frame.bar (frame : Frame) : Frame := ⟨sequence frame.terms :: frame.alternatives,[]⟩
def Frame.whole (frame : Frame) : Node :=
  frame.alternatives.foldl (fun later node => .alt node later) (sequence frame.terms)

-- none where the source is no expression of these forms.
def read : List Frame → Frame → Text → Option Node
  | [],frame,[] => some frame.whole
  | _ :: _,_,[] => none
  | outer,frame,'(' :: '?' :: ':' :: rest => read (frame :: outer) ⟨[],[]⟩ rest
  | outer,frame,'|' :: rest => read outer frame.bar rest
  | up :: outer,frame,')' :: rest => read outer (up.term frame.whole) rest
  | outer,frame,'\\' :: c :: rest =>
    if isSyntax c || c == '/' then read outer (frame.term (.char c)) rest else none
  | outer,frame,c :: rest => if isSyntax c then none else read outer (frame.term (.char c)) rest

def parse (source : Text) : Option Node := read [] ⟨[],[]⟩ source

example : (parse "(?:a\\.|b)c".toList).map (fun node => node.test "xa.cx".toList) = some true := by decide

-- Every character that has a meaning of its own behind a backslash.
def escape (word : Text) : Text := word.flatMap fun c => if isSyntax c then ['\\',c] else [c]

def letters (word : Text) : List Node := (word.map Node.char).reverse

theorem read_letter (plain : isSyntax c = false) (outer : List Frame) (frame : Frame) (rest : Text) :
    read outer frame (c :: rest) = read outer (frame.term (.char c)) rest := by
  have differs : ∀ d, isSyntax d = true → c ≠ d := by
    intro d meaning same
    rw [same,meaning] at plain
    cases plain
  rw [read,plain]
  · rfl
  · exact fun _ same => absurd same (differs '(' (by decide))
  · exact differs '|' (by decide)
  · exact fun _ _ same => absurd same (differs '\\' (by decide))
  · exact fun _ _ _ same => absurd same (differs ')' (by decide))

theorem read_escaped (word : Text) (outer : List Frame) (frame : Frame) (rest : Text) :
    read outer frame (escape word ++ rest) = read outer ⟨frame.alternatives,letters word ++ frame.terms⟩ rest := by
  induction word generalizing frame with
  | nil => rfl
  | cons c word ih =>
    have more : letters (c :: word) ++ frame.terms = letters word ++ (frame.term (.char c)).terms := by
      simp [letters,Frame.term]
    have after := ih (frame.term (.char c))
    rw [more,escape,List.flatMap_cons,List.append_assoc,← escape]
    by_cases meaning : isSyntax c = true
    · rw [if_pos meaning]
      have escaped : read outer frame ('\\' :: c :: (escape word ++ rest)) =
          read outer (frame.term (.char c)) (escape word ++ rest) := by
        cases outer <;> simp [read,meaning]
      exact escaped.trans after
    · rw [if_neg meaning]
      have letter := read_letter (Bool.eq_false_iff.mpr meaning) outer frame (escape word ++ rest)
      exact letter.trans after

def join : List Text → Text
  | [] => []
  | word :: rest => word ++ rest.flatMap ('|' :: ·)

-- A group of words that are escaped and separated by bars.
def alternation (words : List Text) : Text := ['(','?',':'] ++ join (words.map escape) ++ [')']

def Frame.next (frame : Frame) (word : Text) : Frame := ⟨frame.bar.alternatives,letters word⟩

theorem read_bars (words : List Text) (outer : List Frame) (frame : Frame) (rest : Text) :
    read outer frame ((words.map escape).flatMap ('|' :: ·) ++ rest) = read outer (words.foldl Frame.next frame) rest := by
  induction words generalizing frame with
  | nil => rfl
  | cons word words ih =>
    have bar : read outer frame ('|' :: (escape word ++ ((words.map escape).flatMap ('|' :: ·) ++ rest))) =
        read outer frame.bar (escape word ++ ((words.map escape).flatMap ('|' :: ·) ++ rest)) := by
      cases outer <;> rfl
    have word_ := read_escaped word outer frame.bar ((words.map escape).flatMap ('|' :: ·) ++ rest)
    rw [show letters word ++ frame.bar.terms = letters word from List.append_nil _] at word_
    rw [List.map_cons,List.flatMap_cons,List.append_assoc,List.cons_append]
    exact bar.trans (word_.trans (ih (frame.next word)))

theorem parse_alternation (word : Text) (words : List Text) :
    parse (alternation (word :: words)) = some (.seq (words.foldl Frame.next ⟨[],letters word⟩).whole .empty) := by
  have first := read_escaped word [⟨[],[]⟩] ⟨[],[]⟩ ((words.map escape).flatMap ('|' :: ·) ++ [')'])
  rw [List.append_nil,read_bars] at first
  rw [← List.append_assoc] at first
  exact first

end Reading

section Finding

theorem letters_run (word : Text) (next : Text → Bool) (text : Text) :
    (sequence (letters word)).run next text = true ↔ ∃ tail, text = word ++ tail ∧ next tail = true := by
  have folded : sequence (letters word) = word.foldr (fun c later => .seq (.char c) later) .empty := by
    rw [sequence,letters,List.foldl_reverse,List.foldr_map]
  rw [folded]
  clear folded
  induction word generalizing text with
  | nil => simp [Node.run]
  | cons c word ih =>
    rw [List.foldr_cons,Node.run]
    cases text with
    | nil => simp [Node.run]
    | cons d text =>
      rw [Node.run,Bool.and_eq_true,beq_iff_eq]
      constructor
      · rintro ⟨rfl,more⟩
        obtain ⟨tail,rfl,found⟩ := (ih text).mp more
        exact ⟨tail,rfl,found⟩
      · rintro ⟨tail,same,found⟩
        obtain ⟨rfl,rfl⟩ := List.cons.inj same
        exact ⟨rfl,(ih (word ++ tail)).mpr ⟨tail,rfl,found⟩⟩

theorem alternatives_run (alternatives : List Node) (last : Node) (next : Text → Bool) (text : Text) :
    (alternatives.foldl (fun later node => .alt node later) last).run next text = true ↔
      (∃ node ∈ alternatives, node.run next text = true) ∨ last.run next text = true := by
  induction alternatives generalizing last with
  | nil => simp
  | cons node alternatives ih =>
    rw [List.foldl_cons,ih,Node.run,Bool.or_eq_true,List.exists_mem_cons_iff,or_left_comm,or_assoc]

-- A frame after some words finds what it found, and the words.
theorem words_run (words : List Text) (frame : Frame) (next : Text → Bool) (text : Text) :
    (words.foldl Frame.next frame).whole.run next text = true ↔
      frame.whole.run next text = true ∨ ∃ word ∈ words, ∃ tail, text = word ++ tail ∧ next tail = true := by
  induction words generalizing frame with
  | nil => simp
  | cons word words ih =>
    have added : (frame.next word).whole.run next text = true ↔
        frame.whole.run next text = true ∨ ∃ tail, text = word ++ tail ∧ next tail = true := by
      rw [Frame.whole,Frame.whole,alternatives_run,alternatives_run,Frame.next,letters_run,Frame.bar,
        List.exists_mem_cons_iff,@or_comm ((sequence frame.terms).run next text = true)]
    rw [List.foldl_cons,ih,added,List.exists_mem_cons_iff,or_assoc]

-- The expression is the search for one of its words.
theorem alternation_exact (some_ : words ≠ []) :
    ∃ node, parse (alternation words) = some node ∧
      ∀ text, node.test text = true ↔ ∃ word ∈ words, ∃ front tail, text = front ++ word ++ tail := by
  cases words with
  | nil => exact absurd rfl some_
  | cons word words =>
    refine ⟨_,parse_alternation word words,fun text => ?_⟩
    rw [Node.test,List.any_eq_true]
    have here (rest : Text) : (Node.seq (words.foldl Frame.next ⟨[],letters word⟩).whole .empty).run (fun _ => true) rest = true ↔
        ∃ other ∈ word :: words, ∃ tail, rest = other ++ tail := by
      rw [Node.run,words_run,Frame.whole,List.foldl_nil,letters_run,List.exists_mem_cons_iff]
      simp only [Node.run,and_true]
    constructor
    · rintro ⟨rest,suffix,found⟩
      obtain ⟨other,member,tail,rfl⟩ := (here rest).mp found
      obtain ⟨front,rfl⟩ := (List.mem_tails _ _).mp suffix
      exact ⟨other,member,front,tail,(List.append_assoc _ _ _).symm⟩
    · rintro ⟨other,member,front,tail,rfl⟩
      refine ⟨other ++ tail,(List.mem_tails _ _).mpr ⟨front,(List.append_assoc _ _ _).symm⟩,?_⟩
      exact (here (other ++ tail)).mpr ⟨other,member,tail,rfl⟩

end Finding

end RegExps
