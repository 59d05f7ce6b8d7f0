import AdblockCompiler.Downloader
import AdblockCompiler.PosixPaths

namespace AdblockCompiler.Paths
open JsText PosixPaths

-- The segments normalizeDotSegments is left with, and what it joins them with.
def stack (segments : List Text) : List Text := segments.foldl dropDots []

def mark (path : Text) : Char := if path.contains '\\' then '\\' else '/'

section Normalised

theorem mark_separates (path : Text) : isSeparator (mark path) = true := by
  unfold mark
  split <;> rfl

theorem split_slashes (path : Text) : (path.map fun c => if c == '\\' then '/' else c).splitOn '/' = segments isSeparator path := by
  induction path with
  | nil => rfl
  | cons c path ih =>
    rw [segments] at ih
    rw [List.map_cons,List.splitOn_cons_eq_if_modifyHead,segments,List.splitOnP_cons_eq_if_modifyHead,ih]
    by_cases back : c = '\\'
    · subst back
      rfl
    · by_cases slash : c = '/'
      · subst slash
        rfl
      · simp [isSeparator,back,slash]

theorem normalize_stack (path : Text) : normalizeDotSegments path = [mark path].intercalate (stack (segments isSeparator path)) := by
  unfold normalizeDotSegments stack mark
  rw [← split_slashes]

theorem dropDots_name {segment : Text} (dot : segment ≠ ['.']) (up : segment ≠ ['.','.']) (result : List Text) :
    dropDots result segment = result ++ [segment] := (if_neg up).trans (if_pos dot)

theorem dropDots_dot (result : List Text) : dropDots result ['.'] = result := rfl

-- Where two dots take nothing away.
def Blocked (below : List Text) : Prop := below = [] ∨ below.getLast? = some []

theorem dropDots_blocked (blocked : Blocked below) : dropDots below ['.','.'] = below := by
  have stays : ¬(below ≠ [] ∧ below.getLast? ≠ some []) := by
    rintro ⟨some_,last⟩
    rcases blocked with none | blank
    · exact some_ none
    · exact last blank
  exact if_neg stays

theorem dropDots_up (filled : name ≠ []) (below : List Text) : dropDots (below ++ [name]) ['.','.'] = below := by
  have goes : below ++ [name] ≠ [] ∧ (below ++ [name]).getLast? ≠ some [] := by simp [filled]
  exact (if_pos goes).trans List.dropLast_concat

theorem stack_mem (result segments : List Text) (member : name ∈ segments.foldl dropDots result) :
    name ∈ result ∨ (name ∈ segments ∧ name ≠ ['.'] ∧ name ≠ ['.','.']) := by
  induction segments generalizing result with
  | nil => exact .inl member
  | cons segment rest ih =>
    rcases ih (dropDots result segment) member with inside | ⟨later,plain⟩
    · by_cases dot : segment = ['.']
      · subst dot
        exact .inl inside
      · by_cases up : segment = ['.','.']
        · subst up
          have fewer : name ∈ result := by
            change name ∈ (if result ≠ [] ∧ result.getLast? ≠ some [] then result.dropLast else result) at inside
            split at inside
            · exact List.mem_of_mem_dropLast inside
            · exact inside
          exact .inl fewer
        · rw [dropDots_name dot up,List.mem_append,List.mem_singleton] at inside
          rcases inside with old | rfl
          · exact .inl old
          · exact .inr ⟨List.mem_cons_self,dot,up⟩
    · exact .inr ⟨List.mem_cons_of_mem _ later,plain⟩

theorem stack_plain (segments : List Text) : Plain (stack segments) := by
  intro name member
  rcases stack_mem [] segments member with inside | ⟨-,plain⟩
  · cases inside
  · exact plain

theorem stack_free (path : Text) : ∀ name ∈ stack (segments isSeparator path), ∀ c ∈ name, isSeparator c = false := by
  intro name member
  rcases stack_mem [] _ member with inside | ⟨inside,-⟩
  · cases inside
  · exact segments_free isSeparator path name inside

-- What the joined stack denotes.
theorem normalized_segments (path : Text) (some_ : stack (segments isSeparator path) ≠ []) :
    segments isSeparator (normalizeDotSegments path) = stack (segments isSeparator path) := by
  rw [normalize_stack]
  exact segments_join isSeparator (mark_separates path) some_ (stack_free path)

theorem normalized_empty (path : Text) :
    normalizeDotSegments path = [] ↔ stack (segments isSeparator path) = [] ∨ stack (segments isSeparator path) = [[]] := by
  rw [normalize_stack]
  exact join_blank

theorem normalized_location (path : Text) (filled : normalizeDotSegments path ≠ []) (cwd : List Text) :
    location isSeparator cwd (normalizeDotSegments path) =
      (if (stack (segments isSeparator path)).head? = some [] then [] else cwd) ++ (stack (segments isSeparator path)).filter (· ≠ []) := by
  have some_ : stack (segments isSeparator path) ≠ [] := fun none => filled ((normalized_empty path).mpr (.inl none))
  have first := blank_first isSeparator filled
  rw [normalized_segments path some_] at first
  rw [location,normalized_segments path some_,visit_plain (stack_plain _),origin_exact]
  simp only [first]

end Normalised

-- A path as it is read segment by segment: nothing before the segment yet, the
-- root alone, the root and further separators, or a name before the last
-- separator that nothing follows; with the names that came since.
inductive Floor where
  | start | edge | root | named
  deriving DecidableEq, Repr

-- Two dots need a name since the floor, unless they stand at the root, and at
-- the start there is no blank segment.
def advance : Floor × Nat → Text → Option (Floor × Nat)
  | (floor,run),segment =>
    if segment = ['.'] then some (floor,run)
    else if segment = [] then
      match floor,run with
      | .start,0 => none
      | .edge,0 => some (.root,0)
      | .root,0 => some (.root,0)
      | _,_ => some (.named,0)
    else if segment = ['.','.'] then
      match floor,run with
      | _,run+1 => some (floor,run)
      | .edge,0 => some (.edge,0)
      | .root,0 => some (.root,0)
      | _,0 => none
    else some (floor,run+1)

def scan : List Text → Option (Floor × Nat)
  | [] :: rest => rest.foldlM advance (.edge,0)
  | segments => segments.foldlM advance (.start,0)

-- The paths that stay where they point to when their dots are taken out.
def Follows (path : Text) : Prop := ∃ place, scan (segments isSeparator path) = some place ∧ place ≠ (.start,0) ∧ place ≠ (.edge,0)

section Scanning

def names (result : List Text) : List Text := result.filter (· ≠ [])

theorem names_append (one two : List Text) : names (one ++ two) = names one ++ names two := List.filter_append one two

theorem names_filled (filled : ∀ name ∈ top, name ≠ []) : names top = top := by
  apply List.filter_eq_self.mpr
  intro name member
  exact decide_eq_true (filled name member)

-- What the floor is to what lies below the names since.
def Ground (rooted : Bool) (below : List Text) : Floor → Prop
  | .start => rooted = false ∧ below = []
  | .edge => rooted = true ∧ below = [[]]
  | .root => rooted = true ∧ 2 ≤ below.length ∧ ∀ name ∈ below, name = []
  | .named => below.getLast? = some [] ∧ names below ≠ [] ∧ (below.head? = some [] ↔ rooted = true)

-- The stack and the place POSIX is at, while they agree.
def Standing (rooted : Bool) (cwd : List Text) (place : Floor × Nat) (result here : List Text) : Prop :=
  ∃ below top, result = below ++ top ∧ here = (if rooted then [] else cwd) ++ names below ++ top ∧ top.length = place.2 ∧
    (∀ name ∈ top, name ≠ []) ∧ Ground rooted below place.1

theorem ground_blocked (ground : Ground rooted below floor) : Blocked below := by
  cases floor with
  | start => exact .inl ground.2
  | edge => exact .inr (by rw [ground.2]; rfl)
  | root =>
    obtain ⟨-,long,blank⟩ := ground
    cases last : below.getLast? with
    | none =>
      rw [List.getLast?_eq_none_iff.mp last] at long
      cases long
    | some name => exact .inr (by rw [last,blank name (List.mem_of_getLast? last)])
  | named => exact .inr ground.1

theorem ground_nameless (ground : Ground rooted below floor) (unnamed : floor ≠ .named) : names below = [] := by
  cases floor with
  | start => rw [ground.2]; rfl
  | edge => rw [ground.2]; rfl
  | root => exact List.filter_eq_nil_iff.mpr fun name member => by simp [ground.2.2 name member]
  | named => exact absurd rfl unnamed

theorem ground_head (ground : Ground rooted below floor) (filled : ∀ name ∈ top, name ≠ []) (some_ : below ++ top ≠ []) :
    (below ++ top).head? = some [] ↔ rooted = true := by
  cases floor with
  | start =>
    obtain ⟨relative,rfl⟩ := ground
    cases top with
    | nil => exact absurd rfl some_
    | cons name top => simp [relative,filled name List.mem_cons_self]
  | edge =>
    obtain ⟨root,rfl⟩ := ground
    simp [root]
  | root =>
    obtain ⟨root,long,blank⟩ := ground
    cases below with
    | nil => cases long
    | cons first below => simp [root,blank first List.mem_cons_self]
  | named =>
    obtain ⟨last,-,root⟩ := ground
    have more : below ≠ [] := by
      rintro rfl
      cases last
    rwa [List.head?_append_of_ne_nil _ more]

-- A blank segment closes the names that came since the floor.
theorem ground_blank (ground : Ground rooted below floor) (filled : ∀ name ∈ top, name ≠ []) (advanced : advance (floor,top.length) [] = some next) :
    next.2 = 0 ∧ Ground rooted (below ++ top ++ [[]]) next.1 := by
  have closes (some_ : names (below ++ top) ≠ []) (root : (below ++ top).head? = some [] ↔ rooted = true) :
      Ground rooted (below ++ top ++ [[]]) .named := by
    refine ⟨by simp,?_,?_⟩
    · rw [names_append]
      exact List.append_ne_nil_of_left_ne_nil some_ _
    · have more : below ++ top ≠ [] := fun none => some_ (by rw [none]; rfl)
      rwa [List.head?_append_of_ne_nil _ more]
  cases top with
  | nil =>
    rw [List.append_nil]
    cases floor with
    | start => cases advanced
    | edge =>
      cases advanced
      obtain ⟨root,rfl⟩ := ground
      exact ⟨rfl,root,by decide,by decide⟩
    | root =>
      cases advanced
      obtain ⟨root,long,blank⟩ := ground
      refine ⟨rfl,root,?_,List.forall_mem_append.mpr ⟨blank,by decide⟩⟩
      rw [List.length_append]
      omega
    | named =>
      cases advanced
      obtain ⟨-,some_,root⟩ := ground
      refine ⟨rfl,?_⟩
      have closed := closes (by rwa [List.append_nil]) (by rwa [List.append_nil])
      rwa [List.append_nil] at closed
  | cons name top =>
    have some_ : names (below ++ name :: top) ≠ [] := by
      rw [names_append,names_filled filled]
      exact List.append_ne_nil_of_right_ne_nil _ (List.cons_ne_nil name top)
    have root := ground_head ground filled (List.append_ne_nil_of_right_ne_nil below (List.cons_ne_nil name top))
    have named : next = (.named,0) := by
      cases floor <;> exact (Option.some.inj advanced).symm
    rw [named]
    exact ⟨rfl,closes some_ root⟩

-- One segment on a stack and on a place that end in the same names.
inductive Pair (below top above : List Text) : Text → List Text → List Text → Prop where
  | dot : Pair below top above ['.'] (below ++ top) (above ++ top)
  | blank : Pair below top above [] (below ++ top ++ [[]]) (above ++ top)
  | stopped (none : top = []) : Pair below top above ['.','.'] below above.dropLast
  | up {rest : List Text} {name : Text} (last : top = rest ++ [name]) : Pair below top above ['.','.'] (below ++ rest) (above ++ rest)
  | name {segment : Text} (dot : segment ≠ ['.']) (filled : segment ≠ []) (up : segment ≠ ['.','.']) :
      Pair below top above segment (below ++ (top ++ [segment])) (above ++ (top ++ [segment]))

theorem pair_step {below top : List Text} (blocked : Blocked below) (filled : ∀ name ∈ top, name ≠ []) (above : List Text) (segment : Text) :
    Pair below top above segment (dropDots (below ++ top) segment) (visit (above ++ top) segment) := by
  by_cases dot : segment = ['.']
  · subst dot
    rw [dropDots_dot]
    exact .dot
  by_cases blank : segment = []
  · subst blank
    rw [dropDots_name dot (by decide)]
    exact .blank
  by_cases up : segment = ['.','.']
  · subst up
    have goes (here : List Text) : visit here ['.','.'] = here.dropLast := rfl
    rw [goes]
    rcases List.eq_nil_or_concat' top with none | ⟨rest,name,rfl⟩
    · subst none
      rw [List.append_nil,List.append_nil,dropDots_blocked blocked]
      exact .stopped rfl
    · have last := filled name (List.mem_append_right rest List.mem_cons_self)
      rw [← List.append_assoc,dropDots_up last,← List.append_assoc,List.dropLast_concat]
      exact .up rfl
  · have down : visit (above ++ top) segment = above ++ (top ++ [segment]) := by
      unfold visit
      rw [if_neg (by simp [blank,dot]),if_neg up,List.append_assoc]
    rw [dropDots_name dot up,down,List.append_assoc]
    exact .name dot blank up

theorem standing_step {segment : Text} (standing : Standing rooted cwd place result here) (advanced : advance place segment = some next) :
    Standing rooted cwd next (dropDots result segment) (visit here segment) := by
  have whole := standing
  obtain ⟨below,top,rfl,rfl,size,filled,ground⟩ := standing
  obtain ⟨floor,run⟩ := place
  obtain rfl : top.length = run := size
  have pair := pair_step (ground_blocked ground) filled ((if rooted then [] else cwd) ++ names below) segment
  generalize dropDots (below ++ top) segment = result at pair ⊢
  generalize visit ((if rooted then [] else cwd) ++ names below ++ top) segment = here at pair ⊢
  cases pair with
  | dot =>
    cases advanced
    exact whole
  | blank =>
    obtain ⟨none,closed⟩ := ground_blank ground filled advanced
    refine ⟨below ++ top ++ [[]],[],(List.append_nil _).symm,?_,none.symm,fun name member => (nomatch member),closed⟩
    rw [names_append,names_append,names_filled filled]
    simp [names]
  | stopped none =>
    subst none
    have stays : next = (floor,0) ∧ floor ≠ .named ∧ rooted = true := by
      cases floor with
      | start => cases advanced
      | named => cases advanced
      | edge => exact ⟨(Option.some.inj advanced).symm,by decide,ground.1⟩
      | root => exact ⟨(Option.some.inj advanced).symm,by decide,ground.1⟩
    obtain ⟨rfl,unnamed,root⟩ := stays
    refine ⟨below,[],(List.append_nil _).symm,?_,rfl,filled,ground⟩
    rw [ground_nameless ground unnamed,root]
    rfl
  | @up rest name last =>
    subst last
    have down : next = (floor,rest.length) := by
      rw [List.length_append] at advanced
      cases floor <;> exact (Option.some.inj advanced).symm
    rw [down]
    exact ⟨below,rest,rfl,rfl,rfl,(List.forall_mem_append.mp filled).1,ground⟩
  | name dot blank up =>
    have down : next = (floor,top.length+1) := by
      unfold advance at advanced
      simp only [dot,blank,up,if_false] at advanced
      exact (Option.some.inj advanced).symm
    rw [down]
    exact ⟨below,top ++ [segment],rfl,rfl,by simp,List.forall_mem_append.mpr ⟨filled,List.forall_mem_singleton.mpr blank⟩,ground⟩

-- Once two dots went unheeded, POSIX is at a place of fewer names, and stays so:
-- both take the names that come since, and lose them again, alike.
def Behind (rooted : Bool) (cwd result here : List Text) : Prop :=
  ∃ below top above, result = below ++ top ∧ here = above ++ top ∧ (∀ name ∈ top, name ≠ []) ∧ Blocked below ∧
    above.length < ((if rooted then [] else cwd) ++ names below).length

theorem behind_step (behind : Behind rooted cwd result here) (segment : Text) :
    Behind rooted cwd (dropDots result segment) (visit here segment) := by
  have whole := behind
  obtain ⟨below,top,above,rfl,rfl,filled,blocked,fewer⟩ := behind
  have pair := pair_step blocked filled above segment
  generalize dropDots (below ++ top) segment = result at pair ⊢
  generalize visit (above ++ top) segment = here at pair ⊢
  cases pair with
  | dot => exact whole
  | blank =>
    refine ⟨below ++ top ++ [[]],[],above ++ top,(List.append_nil _).symm,(List.append_nil _).symm,fun name member => (nomatch member),
      .inr (by simp),?_⟩
    rw [names_append,names_append,names_filled filled]
    simp only [List.length_append] at fewer ⊢
    omega
  | stopped none =>
    subst none
    refine ⟨below,[],above.dropLast,(List.append_nil _).symm,(List.append_nil _).symm,filled,blocked,?_⟩
    rw [List.length_dropLast]
    omega
  | @up rest name last =>
    subst last
    exact ⟨below,rest,above,rfl,rfl,(List.forall_mem_append.mp filled).1,blocked,fewer⟩
  | name dot blank up =>
    exact ⟨below,top ++ [segment],above,rfl,rfl,List.forall_mem_append.mpr ⟨filled,List.forall_mem_singleton.mpr blank⟩,blocked,fewer⟩

theorem behind_run (behind : Behind rooted cwd result here) (segments : List Text) :
    Behind rooted cwd (segments.foldl dropDots result) (segments.foldl visit here) := by
  induction segments generalizing result here with
  | nil => exact behind
  | cons segment rest ih => exact ih (behind_step behind segment)

theorem behind_differs (behind : Behind rooted cwd result here) : here ≠ (if rooted then [] else cwd) ++ names result := by
  obtain ⟨below,top,above,rfl,rfl,filled,-,fewer⟩ := behind
  intro same
  have lengths := congrArg List.length same
  rw [names_append,names_filled filled] at lengths
  simp only [List.length_append] at lengths fewer
  omega

theorem standing_agrees (standing : Standing rooted cwd place result here) : here = (if rooted then [] else cwd) ++ names result := by
  obtain ⟨below,top,rfl,rfl,-,filled,-⟩ := standing
  rw [names_append,names_filled filled,List.append_assoc]

-- The steps the scan refuses: a blank segment with nothing before it, and two
-- dots that POSIX heeds and the stack does not.
theorem refused_step {segment : Text} (standing : Standing rooted cwd place result here) (deep : rooted = false → cwd ≠ [])
    (refused : advance place segment = none) :
    (rooted = false ∧ dropDots result segment = [[]]) ∨ Behind rooted cwd (dropDots result segment) (visit here segment) := by
  obtain ⟨below,top,rfl,rfl,size,filled,ground⟩ := standing
  obtain ⟨floor,run⟩ := place
  obtain rfl : top.length = run := size
  have dot : segment ≠ ['.'] := by
    rintro rfl
    cases refused
  by_cases blank : segment = []
  · subst blank
    have none : floor = .start ∧ top = [] := by
      cases floor <;> cases top <;> first | exact ⟨rfl,rfl⟩ | cases refused
    obtain ⟨rfl,rfl⟩ := none
    obtain ⟨relative,rfl⟩ := ground
    exact .inl ⟨relative,rfl⟩
  by_cases up : segment = ['.','.']
  · subst up
    have stopped : top = [] ∧ (floor = .start ∨ floor = .named) := by
      cases top with
      | cons name top => cases floor <;> cases refused
      | nil => cases floor <;> first | exact ⟨rfl,.inl rfl⟩ | exact ⟨rfl,.inr rfl⟩ | cases refused
    obtain ⟨rfl,at_⟩ := stopped
    have blocked := ground_blocked ground
    refine .inr ⟨below,[],((if rooted then [] else cwd) ++ names below).dropLast,?_,?_,filled,blocked,?_⟩
    · rw [List.append_nil,dropDots_blocked blocked]
    · rw [List.append_nil,List.append_nil]
      rfl
    · have some_ : (if rooted then [] else cwd) ++ names below ≠ [] := by
        rcases at_ with rfl | rfl
        · obtain ⟨rfl,-⟩ := ground
          exact List.append_ne_nil_of_left_ne_nil (deep rfl) _
        · exact List.append_ne_nil_of_right_ne_nil _ ground.2.1
      rw [List.length_dropLast]
      have positive := List.length_pos_iff.mpr some_
      omega
  · unfold advance at refused
    simp only [dot,blank,up,if_false] at refused
    cases refused

theorem blank_stays (first : result.head? = some []) (segments : List Text) : (segments.foldl dropDots result).head? = some [] := by
  induction segments generalizing result with
  | nil => exact first
  | cons segment rest ih =>
    apply ih
    obtain ⟨below,rfl⟩ := List.head?_eq_some_iff.mp first
    by_cases dot : segment = ['.']
    · subst dot
      rfl
    by_cases up : segment = ['.','.']
    · subst up
      rcases List.eq_nil_or_concat' below with rfl | ⟨below,name,rfl⟩
      · rfl
      · by_cases blank : name = []
        · have last : ([] :: (below ++ [name])).getLast? = some [] := by
            rw [blank,← List.cons_append]
            exact List.getLast?_concat
          rw [dropDots_blocked (.inr last)]
          rfl
        · rw [← List.cons_append,dropDots_up blank]
          rfl
    · rw [dropDots_name dot up]
      rfl

theorem standing_run (segments : List Text) (standing : Standing rooted cwd place result here)
    (scanned : segments.foldlM advance place = some next) :
    Standing rooted cwd next (segments.foldl dropDots result) (segments.foldl visit here) := by
  induction segments generalizing place result here with
  | nil => exact Option.some.inj scanned ▸ standing
  | cons segment rest ih =>
    rw [List.foldlM_cons] at scanned
    obtain ⟨middle,advanced,later⟩ := Option.bind_eq_some_iff.mp scanned
    exact ih (standing_step standing advanced) later

theorem refused_run (segments : List Text) (standing : Standing rooted cwd place result here) (deep : rooted = false → cwd ≠ [])
    (refused : segments.foldlM advance place = none) :
    (rooted = false ∧ (segments.foldl dropDots result).head? = some []) ∨
      Behind rooted cwd (segments.foldl dropDots result) (segments.foldl visit here) := by
  induction segments generalizing place result here with
  | nil => cases refused
  | cons segment rest ih =>
    rw [List.foldlM_cons] at refused
    cases advanced : advance place segment with
    | some next =>
      rw [advanced] at refused
      exact ih (standing_step standing advanced) refused
    | none =>
      rcases refused_step standing deep advanced with ⟨relative,blank⟩ | behind
      · refine .inl ⟨relative,?_⟩
        rw [List.foldl_cons,blank]
        exact blank_stays rfl rest
      · exact .inr (behind_run behind rest)

theorem edge_standing (cwd : List Text) : Standing true cwd (.edge,0) [[]] [] :=
  ⟨[[]],[],rfl,rfl,rfl,fun _ member => (nomatch member),rfl,rfl⟩

theorem start_standing (cwd : List Text) : Standing false cwd (.start,0) [] cwd :=
  ⟨[],[],rfl,by simp [names],rfl,fun _ member => (nomatch member),rfl,rfl⟩

def blankFirst (segments : List Text) : Bool := segments.head? = some []

theorem scan_cases (segments : List Text) : (∃ rest, segments = [] :: rest ∧ scan segments = rest.foldlM advance (.edge,0)) ∨
    (blankFirst segments = false ∧ scan segments = segments.foldlM advance (.start,0)) := by
  by_cases first : segments.head? = some []
  · obtain ⟨rest,rfl⟩ := List.head?_eq_some_iff.mp first
    exact .inl ⟨rest,rfl,rfl⟩
  · refine .inr ⟨decide_eq_false first,?_⟩
    unfold scan
    split
    · exact absurd rfl first
    · rfl

theorem scan_run (segments : List Text) (cwd : List Text) (scanned : scan segments = some next) :
    Standing (blankFirst segments) cwd next (stack segments) (segments.foldl visit (if blankFirst segments then [] else cwd)) := by
  rcases scan_cases segments with ⟨rest,rfl,ran⟩ | ⟨relative,ran⟩
  · rw [ran] at scanned
    exact standing_run rest (edge_standing cwd) scanned
  · rw [ran] at scanned
    rw [relative]
    exact standing_run segments (start_standing cwd) scanned

theorem scan_refused (segments : List Text) (cwd : List Text) (deep : cwd ≠ []) (refused : scan segments = none) :
    (blankFirst segments = false ∧ (stack segments).head? = some []) ∨
      Behind (blankFirst segments) cwd (stack segments) (segments.foldl visit (if blankFirst segments then [] else cwd)) := by
  rcases scan_cases segments with ⟨rest,rfl,ran⟩ | ⟨relative,ran⟩
  · rw [ran] at refused
    exact refused_run rest (edge_standing cwd) (fun _ => deep) refused
  · rw [ran] at refused
    rw [relative]
    exact refused_run segments (start_standing cwd) (fun _ => deep) refused

theorem blankFirst_exact (filled : path ≠ []) : blankFirst (segments isSeparator path) = fromRoot isSeparator path := by
  rw [Bool.eq_iff_iff]
  exact decide_eq_true_iff.trans (blank_first isSeparator filled)

theorem location_segments (filled : path ≠ []) (cwd : List Text) : location isSeparator cwd path =
    (segments isSeparator path).foldl visit (if blankFirst (segments isSeparator path) then [] else cwd) := by
  rw [location,origin_exact,blankFirst_exact filled]

theorem standing_empty (standing : Standing rooted cwd place result here) :
    (result = [] ∨ result = [[]]) ↔ place = (.start,0) ∨ place = (.edge,0) := by
  obtain ⟨below,top,rfl,-,size,filled,ground⟩ := standing
  obtain ⟨floor,run⟩ := place
  obtain rfl : top.length = run := size
  cases top with
  | cons name top =>
    have solid := filled name List.mem_cons_self
    cases below with
    | nil => simp [solid]
    | cons first below => simp
  | nil =>
    rw [List.append_nil]
    cases floor with
    | start => simp [ground.2]
    | edge => simp [ground.2]
    | root =>
      obtain ⟨-,long,-⟩ := ground
      simp only [List.length_nil,Prod.mk.injEq,reduceCtorEq,false_and,or_self,iff_false]
      rintro (rfl | rfl)
      · cases long
      · exact absurd long (by decide)
    | named =>
      obtain ⟨last,some_,-⟩ := ground
      simp only [List.length_nil,Prod.mk.injEq,reduceCtorEq,false_and,or_self,iff_false]
      rintro (rfl | rfl)
      · cases last
      · exact some_ rfl

theorem standing_head (standing : Standing rooted cwd place result here) (some_ : result ≠ []) : result.head? = some [] ↔ rooted = true := by
  obtain ⟨below,top,rfl,-,-,filled,ground⟩ := standing
  exact ground_head ground filled some_

end Scanning

section Resolution

theorem follows_empty : ¬Follows [] := by
  rintro ⟨place,scanned,-,edge⟩
  exact edge (Option.some.inj scanned).symm

theorem stack_first {parts : List Text} (rooted : blankFirst parts = true) : (stack parts).head? = some [] := by
  obtain ⟨rest,rfl⟩ := List.head?_eq_some_iff.mp (of_decide_eq_true rooted)
  exact blank_stays rfl rest

-- Where it is followed, the normalised path denotes what the path does.
theorem follows_location (follows : Follows path) (cwd : List Text) :
    normalizeDotSegments path ≠ [] ∧ location isSeparator cwd (normalizeDotSegments path) = location isSeparator cwd path := by
  have filled : path ≠ [] := by
    rintro rfl
    exact follows_empty follows
  obtain ⟨place,scanned,start,edge⟩ := follows
  have standing := scan_run (segments isSeparator path) cwd scanned
  have there : normalizeDotSegments path ≠ [] := by
    intro empty
    rcases (standing_empty standing).mp ((normalized_empty path).mp empty) with same | same
    · exact start same
    · exact edge same
  refine ⟨there,?_⟩
  have some_ : stack (segments isSeparator path) ≠ [] := fun none => there ((normalized_empty path).mpr (.inl none))
  rw [normalized_location path there,location_segments filled,standing_agrees standing]
  simp only [standing_head standing some_]
  rfl

theorem location_follows (filled : path ≠ []) (there : normalizeDotSegments path ≠ [])
    (same : ∀ cwd, location isSeparator cwd (normalizeDotSegments path) = location isSeparator cwd path) : Follows path := by
  have relative : blankFirst (segments isSeparator path) = false → (stack (segments isSeparator path)).head? ≠ some [] := by
    intro first blank
    rw [blankFirst_exact filled] at first
    obtain ⟨cwd,moved⟩ := relative_moves isSeparator first (names (stack (segments isSeparator path)))
    apply moved
    rw [← same,normalized_location path there,if_pos blank]
    rfl
  have origins (cwd : List Text) : (if (stack (segments isSeparator path)).head? = some [] then [] else cwd) =
      if blankFirst (segments isSeparator path) then [] else cwd := by
    cases first : blankFirst (segments isSeparator path) with
    | true => rw [if_pos (stack_first first),if_pos rfl]
    | false => rw [if_neg (relative first),if_neg Bool.false_ne_true]
  cases scanned : scan (segments isSeparator path) with
  | none =>
    have here := same [['x']]
    rw [normalized_location path there,location_segments filled,origins] at here
    rcases scan_refused _ [['x']] (by decide) scanned with ⟨first,blank⟩ | behind
    · exact absurd blank (relative first)
    · exact absurd here.symm (behind_differs behind)
  | some place =>
    have empty := standing_empty (scan_run (segments isSeparator path) [] scanned)
    rw [← normalized_empty] at empty
    refine ⟨place,scanned,?_,?_⟩
    · intro start
      exact there (empty.mpr (.inl start))
    · intro edge
      exact there (empty.mpr (.inr edge))

theorem same_file_exact (path : Text) :
    (∀ cwd, ∃ file, resolve isSeparator cwd (normalizeDotSegments path) = some file ∧ resolve isSeparator cwd path = some file) ↔
      Follows path := by
  constructor
  · intro same
    have filled : path ≠ [] := by
      rintro rfl
      obtain ⟨file,-,found⟩ := same []
      cases found
    have there : normalizeDotSegments path ≠ [] := by
      intro empty
      obtain ⟨file,found,-⟩ := same []
      rw [empty] at found
      cases found
    refine location_follows filled there ?_
    intro cwd
    obtain ⟨file,one,two⟩ := same cwd
    rw [resolve,if_neg there] at one
    rw [resolve,if_neg filled] at two
    exact (Option.some.inj one).trans (Option.some.inj two).symm
  · intro follows cwd
    obtain ⟨there,same⟩ := follows_location follows cwd
    have filled : path ≠ [] := by
      rintro rfl
      exact follows_empty follows
    exact ⟨location isSeparator cwd path,by rw [resolve,if_neg there,same],by rw [resolve,if_neg filled]⟩

end Resolution

section Directories

-- The directory part of a base path.
def directory (basePath : Text) : Text := upToLast isSeparator basePath

theorem directory_shape (basePath : Text) :
    directory basePath = [] ∨ ∃ front c, isSeparator c = true ∧ directory basePath = front ++ [c] := by
  by_cases none : directory basePath = []
  · exact .inl none
  · refine .inr ⟨_,_,?_,(List.dropLast_append_getLast none).symm⟩
    have last := List.rdropWhile_last_not (fun c => !isSeparator c) basePath none
    rwa [Bool.not_eq_true,Bool.not_eq_false'] at last

theorem directory_segments (separates : isSeparator c = true) (front path : Text) :
    segments isSeparator (front ++ [c] ++ path) = segments isSeparator front ++ segments isSeparator path := by
  rw [List.append_assoc]
  exact segments_append isSeparator separates front path

theorem stack_append (one two : List Text) : stack (one ++ two) = two.foldl dropDots (stack one) := List.foldl_append

-- The normalised directory is the stack of its segments and a last separator.
theorem normalized_directory (separates : isSeparator c = true) (front : Text) :
    normalizeDotSegments (front ++ [c]) =
      if stack (segments isSeparator front) = [] then [] else
        [mark (front ++ [c])].intercalate (stack (segments isSeparator front)) ++ [mark (front ++ [c])] := by
  have parts := directory_segments separates front []
  rw [List.append_nil] at parts
  have pushed : stack (segments isSeparator (front ++ [c])) = stack (segments isSeparator front) ++ [[]] := by
    rw [parts,stack_append]
    change dropDots _ [] = _
    exact dropDots_name (by decide) (by decide) _
  rw [normalize_stack,pushed]
  split
  · rename_i none
    rw [none]
    rfl
  · rename_i some_
    rw [join_append some_ (List.cons_ne_nil _ _),List.intercalate_singleton]

theorem startsWith_segments (separates : isSeparator c = true) (kept : startsWith path (front ++ [c]) = true) :
    ∃ rest, segments isSeparator path = segments isSeparator front ++ segments isSeparator rest := by
  obtain ⟨rest,rfl⟩ := startsWith_iff.mp kept
  exact ⟨rest,directory_segments separates front rest⟩

-- What the guard lets through begins with the directory's own stack.
theorem kept_prefix (separates : isSeparator c = true) (front includePath : Text) (kept : escapes includePath (front ++ [c]) = false)
    (there : normalizeDotSegments (front ++ [c] ++ includePath) ≠ []) :
    stack (segments isSeparator front) <+: stack (segments isSeparator (front ++ [c] ++ includePath)) := by
  by_cases none : stack (segments isSeparator front) = []
  · rw [none]
    exact List.nil_prefix
  · have base := normalized_directory separates front
    rw [if_neg none] at base
    have filled : normalizeDotSegments (front ++ [c]) ≠ [] := by
      rw [base]
      exact List.append_ne_nil_of_right_ne_nil _ (List.cons_ne_nil _ _)
    simp only [escapes,decide_eq_true filled,Bool.true_and,Bool.not_eq_false'] at kept
    rw [base] at kept
    obtain ⟨rest,parts⟩ := startsWith_segments (mark_separates _) kept
    have some_ : stack (segments isSeparator (front ++ [c] ++ includePath)) ≠ [] :=
      fun none => there ((normalized_empty _).mpr (.inl none))
    rw [normalized_segments _ some_,segments_join isSeparator (mark_separates _) none (stack_free front)] at parts
    exact ⟨_,parts.symm⟩

theorem scan_append {one : List Text} (some_ : one ≠ []) (two : List Text) (scanned : scan (one ++ two) = some next) :
    ∃ middle, scan one = some middle := by
  obtain ⟨first,one,rfl⟩ := List.exists_cons_of_ne_nil some_
  rcases scan_cases (first :: one) with ⟨rest,shape,ran⟩ | ⟨relative,ran⟩
  · obtain ⟨rfl,rfl⟩ := List.cons.inj shape
    change (one ++ two).foldlM advance (.edge,0) = some next at scanned
    rw [List.foldlM_append] at scanned
    obtain ⟨middle,before,-⟩ := Option.bind_eq_some_iff.mp scanned
    exact ⟨middle,ran.trans before⟩
  · rcases scan_cases (first :: one ++ two) with ⟨rest,shape,-⟩ | ⟨-,whole⟩
    · obtain ⟨rfl,-⟩ := List.cons.inj shape
      cases relative
    · rw [whole,List.foldlM_append] at scanned
      obtain ⟨middle,before,-⟩ := Option.bind_eq_some_iff.mp scanned
      exact ⟨middle,ran.trans before⟩

-- A path that is returned denotes what the directory followed by the include
-- path does, from every working directory, and that is in the directory.
def Lands (sep : Char → Bool) (baseDir includePath resolved : Text) : Prop :=
  ∀ cwd, ∃ file, resolve sep cwd resolved = some file ∧ resolve sep cwd (baseDir ++ includePath) = some file ∧
    location sep cwd baseDir <+: file

def Resolved (sep : Char → Bool) (baseDir includePath : Text) : Except Thrown Text → Prop
  | .error _ => ['.','.'] ∈ segments sep includePath
  | .ok resolved => Lands sep baseDir includePath resolved

theorem blankFirst_append {one : List Text} (some_ : one ≠ []) (two : List Text) : blankFirst (one ++ two) = blankFirst one := by
  unfold blankFirst
  rw [List.head?_append_of_ne_nil _ some_]

theorem location_directory (separates : isSeparator c = true) (front cwd : List _) : location isSeparator cwd (front ++ [c]) =
    (segments isSeparator front).foldl visit (if blankFirst (segments isSeparator front) then [] else cwd) := by
  have parts := directory_segments separates front []
  rw [List.append_nil] at parts
  rw [location_segments (List.append_ne_nil_of_right_ne_nil _ (List.cons_ne_nil _ _)),parts,blankFirst_append (segments_some _ _),
    List.foldl_append]
  rfl

theorem within_directory (separates : isSeparator c = true) (front includePath : Text) (kept : escapes includePath (front ++ [c]) = false)
    (follows : Follows (front ++ [c] ++ includePath)) (cwd : List Text) :
    location isSeparator cwd (front ++ [c]) <+: location isSeparator cwd (front ++ [c] ++ includePath) := by
  have there := (follows_location follows cwd).1
  have begins := kept_prefix separates front includePath kept there
  obtain ⟨place,scanned,-⟩ := follows
  have filled : front ++ [c] ++ includePath ≠ [] := by simp
  have whole := standing_agrees (scan_run _ cwd scanned)
  rw [directory_segments separates front includePath] at scanned
  obtain ⟨middle,before⟩ := scan_append (segments_some isSeparator front) _ scanned
  rw [location_directory separates,standing_agrees (scan_run _ cwd before),location_segments filled,whole]
  rw [directory_segments separates front includePath] at begins ⊢
  rw [blankFirst_append (segments_some isSeparator front)]
  exact List.prefix_append_right_inj _ |>.mpr (begins.filter _)

theorem within_here (includePath : Text) (relative : fromRoot isSeparator includePath = false) (follows : Follows includePath) (cwd : List Text) :
    cwd <+: location isSeparator cwd includePath := by
  have filled : includePath ≠ [] := by
    rintro rfl
    exact follows_empty follows
  obtain ⟨place,scanned,-⟩ := follows
  rw [location_segments filled,standing_agrees (scan_run _ cwd scanned),blankFirst_exact filled,relative]
  exact List.prefix_append cwd _

theorem rooted_outside (includePath : Text) (root : fromRoot isSeparator includePath = true) :
    ∃ cwd, ¬cwd <+: location isSeparator cwd includePath := by
  have fixed (cwd : List Text) : location isSeparator cwd includePath = location isSeparator [] includePath := by
    rw [location,location,origin_exact,origin_exact,root]
    rfl
  generalize location isSeparator [] includePath = place at fixed
  refine ⟨List.replicate (place.length+1) ['x'],?_⟩
  rw [fixed]
  intro inside
  have short := inside.length_le
  rw [List.length_replicate] at short
  omega

theorem lands_exact (basePath includePath : Text) (kept : escapes includePath (directory basePath) = false) :
    Lands isSeparator (directory basePath) includePath (normalizeDotSegments (directory basePath ++ includePath)) ↔
      Follows (directory basePath ++ includePath) ∧ (directory basePath = [] → fromRoot isSeparator includePath = false) := by
  constructor
  · intro lands
    refine ⟨(same_file_exact _).mp ?_,?_⟩
    · intro cwd
      obtain ⟨file,one,two,-⟩ := lands cwd
      exact ⟨file,one,two⟩
    · intro here
      rw [here] at lands
      cases root : fromRoot isSeparator includePath with
      | false => rfl
      | true =>
        obtain ⟨cwd,outside⟩ := rooted_outside includePath root
        obtain ⟨file,-,found,inside⟩ := lands cwd
        have filled : includePath ≠ [] := by
          rintro rfl
          cases found
        rw [List.nil_append,resolve,if_neg filled] at found
        rw [← Option.some.inj found] at inside
        exact absurd inside outside
  · rintro ⟨follows,relative⟩ cwd
    obtain ⟨file,one,two⟩ := (same_file_exact _).mpr follows cwd
    refine ⟨file,one,two,?_⟩
    have filled : directory basePath ++ includePath ≠ [] := by
      intro empty
      rw [empty] at follows
      exact follows_empty follows
    rw [resolve,if_neg filled] at two
    rw [← Option.some.inj two]
    rcases directory_shape basePath with here | ⟨front,c,separates,shape⟩
    · rw [here] at follows ⊢
      exact within_here includePath (relative here) follows cwd
    · rw [shape] at kept follows ⊢
      exact within_directory separates front includePath kept follows cwd

-- Where the guard refuses an include path without two dots: the directory is
-- joined again by slashes and the whole path by backslashes, or the include path
-- comes to nothing and the directory's last separator is gone.
def Stopped (baseDir includePath : Text) : Prop :=
  normalizeDotSegments baseDir ≠ [] ∧
    (('\\' ∉ baseDir ∧ '\\' ∈ includePath) ∨ ∀ segment ∈ segments isSeparator includePath, segment = ['.'])

theorem mark_exact (one two : Text) : mark (one ++ two) = mark one ↔ ¬('\\' ∉ one ∧ '\\' ∈ two) := by
  unfold mark
  by_cases first : '\\' ∈ one
  · simp [first]
  · by_cases second : '\\' ∈ two
    · simp [first,second]
    · simp [first,second]

theorem undotted_stack (parts result : List Text) (level : ['.','.'] ∉ parts) : parts.foldl dropDots result = result ++ parts.filter (· ≠ ['.']) := by
  induction parts generalizing result with
  | nil => simp
  | cons part rest ih =>
    rw [List.mem_cons,not_or] at level
    obtain ⟨up,later⟩ := level
    rw [List.foldl_cons,ih _ later]
    by_cases dot : part = ['.']
    · subst dot
      rfl
    · rw [dropDots_name dot (Ne.symm up),List.append_assoc,List.singleton_append]
      simp [dot]

theorem undotted_prefix (front includePath : Text) (some_ : stack (segments isSeparator front) ≠ [])
    (separates : isSeparator c = true) (level : ['.','.'] ∉ segments isSeparator includePath) :
    startsWith (normalizeDotSegments (front ++ [c] ++ includePath)) (normalizeDotSegments (front ++ [c])) = true ↔
      mark (front ++ [c] ++ includePath) = mark (front ++ [c]) ∧ (segments isSeparator includePath).filter (· ≠ ['.']) ≠ [] := by
  have whole : stack (segments isSeparator (front ++ [c] ++ includePath)) =
      stack (segments isSeparator front) ++ (segments isSeparator includePath).filter (· ≠ ['.']) := by
    rw [directory_segments separates,stack_append,undotted_stack _ _ level]
  have base := normalized_directory separates front
  rw [if_neg some_] at base
  constructor
  · intro kept
    rw [base] at kept
    have first := startsWith_segments (mark_separates _) kept
    rw [normalize_stack] at kept
    obtain ⟨rest,joined⟩ := startsWith_iff.mp kept
    have more : stack (segments isSeparator (front ++ [c] ++ includePath)) ≠ [] := by
      rw [whole]
      exact List.append_ne_nil_of_left_ne_nil some_ _
    constructor
    · have inside : mark (front ++ [c]) ∈ [mark (front ++ [c] ++ includePath)].intercalate
          (stack (segments isSeparator (front ++ [c] ++ includePath))) := by
        rw [joined]
        simp
      rcases mem_join inside with same | ⟨name,member,own⟩
      · exact same.symm
      · have free := stack_free _ name member _ own
        rw [mark_separates] at free
        cases free
    · intro none
      obtain ⟨rest,parts⟩ := first
      rw [normalized_segments _ more,whole,none,List.append_nil,
        segments_join isSeparator (mark_separates _) some_ (stack_free front)] at parts
      exact segments_some isSeparator rest (List.append_cancel_left (parts.symm.trans (List.append_nil _).symm))
  · rintro ⟨same,more⟩
    rw [base,normalize_stack,whole,same,join_append some_ more]
    exact startsWith_iff.mpr ⟨_,by rw [List.append_assoc,List.singleton_append]⟩

theorem escapes_exact (basePath includePath : Text) (level : ['.','.'] ∉ segments isSeparator includePath) :
    escapes includePath (directory basePath) = true ↔ Stopped (directory basePath) includePath := by
  have stops : ((segments isSeparator includePath).filter (· ≠ ['.']) = []) ↔ ∀ segment ∈ segments isSeparator includePath, segment = ['.'] := by
    rw [List.filter_eq_nil_iff]
    simp
  unfold escapes Stopped
  simp only [Bool.and_eq_true,decide_eq_true_eq,Bool.not_eq_true']
  apply and_congr_right
  intro filled
  rcases directory_shape basePath with here | ⟨front,c,separates,shape⟩
  · rw [here] at filled
    exact absurd rfl filled
  · rw [shape] at filled ⊢
    have some_ : stack (segments isSeparator front) ≠ [] := by
      intro none
      rw [normalized_directory separates,if_pos none] at filled
      exact filled rfl
    have exact := undotted_prefix front includePath some_ separates level
    rw [mark_exact,ne_eq,stops] at exact
    rw [← Bool.not_eq_true,exact,not_and_or,not_not,not_not]

-- How a path may be read: with both separators, as the code takes it, or with
-- the slash alone, where there is no backslash that the two would read apart.
def Reads (sep : Char → Bool) (basePath includePath : Text) : Prop :=
  sep = isSeparator ∨ (sep = (· == '/') ∧ '\\' ∉ basePath ∧ '\\' ∉ includePath)

-- The paths that resolve as claimed: an include path without two dots is not
-- refused; one that the guard lets through is followed; and from a directory
-- without a text it does not start at the root.
def Resolves (baseDir includePath : Text) : Prop :=
  (['.','.'] ∉ segments isSeparator includePath → ¬Stopped baseDir includePath) ∧
    (escapes includePath baseDir = false → Follows (baseDir ++ includePath) ∧ (baseDir = [] → fromRoot isSeparator includePath = false))

section Slashes
variable {path : Text} (slashes : '\\' ∉ path)

include slashes

theorem slash_alone : ∀ c ∈ path, (c == '/') = isSeparator c := by
  intro c member
  have other : c ≠ '\\' := by
    rintro rfl
    exact slashes member
  simp [isSeparator,other]

theorem slash_segments : segments (· == '/') path = segments isSeparator path := by
  have alone := slash_alone slashes
  clear slashes
  induction path with
  | nil => rfl
  | cons c path ih =>
    obtain ⟨own,rest⟩ := List.forall_mem_cons.mp alone
    have later := ih rest
    simp only [segments] at later ⊢
    rw [List.splitOnP_cons_eq_if_modifyHead,List.splitOnP_cons_eq_if_modifyHead,own,later]

theorem slash_location (cwd : List Text) : location (· == '/') cwd path = location isSeparator cwd path := by
  have origins : origin (· == '/') cwd path = origin isSeparator cwd path := by
    cases path with
    | nil => rfl
    | cons c path => simp only [origin,slash_alone slashes c List.mem_cons_self]
  rw [location,location,origins,slash_segments slashes]

theorem slash_resolve (cwd : List Text) : resolve (· == '/') cwd path = resolve isSeparator cwd path := by
  rw [resolve,resolve,slash_location slashes]

theorem slash_normalized : '\\' ∉ normalizeDotSegments path := by
  rw [normalize_stack,show mark path = '/' by simp [mark,slashes]]
  intro member
  rcases mem_join member with same | ⟨name,inside,own⟩
  · cases same
  · cases stack_free path name inside _ own

end Slashes

theorem directory_begins (basePath : Text) : directory basePath <+: basePath := List.rdropWhile_prefix _ _

theorem resolve_near (newURL : Text → Text → Except Thrown Text) (near : isUrl basePath = false)
    (relative : (isAbsolutePath includePath || isUrl includePath) = false) : PathUtils.resolveIncludePath newURL includePath basePath =
      if escapes includePath (directory basePath) then .error (traversalError includePath (directory basePath))
      else .ok (normalizeDotSegments (directory basePath ++ includePath)) := by
  unfold PathUtils.resolveIncludePath
  rw [relative,near]
  rfl

theorem resolved_reading (newURL : Text → Text → Except Thrown Text) (reads : Reads sep basePath includePath)
    (near : isUrl basePath = false) (relative : (isAbsolutePath includePath || isUrl includePath) = false) :
    Resolved sep (directory basePath) includePath (PathUtils.resolveIncludePath newURL includePath basePath) ↔
      Resolved isSeparator (directory basePath) includePath (PathUtils.resolveIncludePath newURL includePath basePath) := by
  rcases reads with rfl | ⟨rfl,base,own⟩
  · rfl
  · have dir : '\\' ∉ directory basePath := fun member => base ((directory_begins basePath).subset member)
    have whole : '\\' ∉ directory basePath ++ includePath := by
      rw [List.mem_append,not_or]
      exact ⟨dir,own⟩
    rw [resolve_near newURL near relative]
    split
    · exact iff_of_eq (congrArg (['.','.'] ∈ ·) (slash_segments own))
    · simp only [Resolved,Lands,slash_resolve whole,slash_location dir]
      simp only [slash_resolve (slash_normalized whole)]

end Directories

end AdblockCompiler.Paths
