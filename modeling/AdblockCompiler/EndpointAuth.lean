import AdblockCompiler.JsText

-- resolveEndpointAuth: which override row of the admin database applies to a
-- request.
namespace AdblockCompiler.EndpointAuth
open JsText

structure Row where
  id : Int
  path_pattern : Text
  method : Text
  required_tier : Option Text
  required_scopes : Option Text
  is_public : Int
  is_active : Int
  created_at : Text
  updated_at : Text
  deriving DecidableEq, Repr

structure EndpointAuthOverrideRow where
  id : Int
  path_pattern : Text
  method : Text
  required_tier : Option Text
  required_scopes : Option (List Text)
  is_public : Bool
  is_active : Bool
  created_at : Text
  updated_at : Text
  deriving DecidableEq, Repr

-- A row of the table has the types of the schema, so that only JSON.parse can
-- throw. An empty text of scopes is falsy.
def EndpointAuthOverrideRowSchema (jsonParse : Text → Except Thrown (List Text)) (row : Row) : Except Thrown EndpointAuthOverrideRow := do
  let required_scopes ←
    match row.required_scopes with
    | none | some [] => pure none
    | some s => some <$> jsonParse s
  return {
    id := row.id
    path_pattern := row.path_pattern
    method := row.method
    required_tier := row.required_tier
    required_scopes
    is_public := row.is_public = 1
    is_active := row.is_active = 1
    created_at := row.created_at
    updated_at := row.updated_at }

-- The three statements. All of them ask for is_active = 1.
inductive Query where
  | exact (path method : Text)
  | exactPathWildcard (path : Text)
  | wildcards
  deriving DecidableEq, Repr

def Query.wants (row : Row) : Query → Bool
  | .exact path method => row.path_pattern = path ∧ row.method = method ∧ row.is_active = 1
  | .exactPathWildcard path => row.path_pattern = path ∧ row.method = ['*'] ∧ row.is_active = 1
  | .wildcards => endsWith row.path_pattern ['*'] ∧ row.is_active = 1

def stem (row : Row) : Text := row.path_pattern.dropLast

section Resolving
variable (toUpperCase : Text → Text) (jsonParse : Text → Except Thrown (List Text)) (db : Query → List Row)

-- The loop over the wildcard rows: bestMethodMatch and bestWildcardMatch. It
-- breaks at the first row for the method itself.
def scan (path upperMethod : Text) : Option Row → List Row → Option Row × Option Row
  | bestWildcardMatch,[] => (none,bestWildcardMatch)
  | bestWildcardMatch,row :: rest =>
    if !startsWith path (stem row) then scan path upperMethod bestWildcardMatch rest
    else if row.method = upperMethod then (some row,bestWildcardMatch)
    else if row.method = ['*'] ∧ bestWildcardMatch = none then scan path upperMethod (some row) rest
    else scan path upperMethod bestWildcardMatch rest

def choose (path method : Text) : Option Row :=
  let upperMethod := toUpperCase method
  match (db (.exact path upperMethod)).head? with
  | some exact_ => some exact_
  | none =>
    match (db (.exactPathWildcard path)).head? with
    | some exactPathWildcard => some exactPathWildcard
    | none =>
      match scan path upperMethod none (db .wildcards) with
      | (some bestMethodMatch,_) => some bestMethodMatch
      | (none,bestWildcardMatch) => bestWildcardMatch

def resolveEndpointAuth (path method : Text) : Except Thrown (Option EndpointAuthOverrideRow) :=
  (choose toUpperCase db path method).mapM (EndpointAuthOverrideRowSchema jsonParse)

-- What the database answers: the rows that a statement wants, in any order but
-- for the lengths of the patterns in the last one.
structure Answers (rows : List Row) : Prop where
  wanted : ∀ query, (db query).Perm (rows.filter fun row => query.wants row)
  longestFirst : (db .wildcards).Pairwise fun one two => two.path_pattern.length ≤ one.path_pattern.length

end Resolving

-- The documented order of resolution.
section Priority
variable (rows : List Row) (path : Text)

def active (row : Row) : Bool := row.is_active = 1

def Exact (method : Text) (row : Row) : Prop := row ∈ rows ∧ active row = true ∧ row.path_pattern = path ∧ row.method = method

def Under (method : Text) (row : Row) : Prop :=
  row ∈ rows ∧ active row = true ∧ (∃ stem, row.path_pattern = stem ++ ['*'] ∧ startsWith path stem = true) ∧ row.method = method

def Longest (method : Text) (row : Row) : Prop :=
  Under rows path method row ∧ ∀ other, Under rows path method other → other.path_pattern.length ≤ row.path_pattern.length

-- A row of the first level that has one.
inductive First : List (Row → Prop) → Option Row → Prop where
  | here {level : Row → Prop} (found : level row) : First (level :: rest) (some row)
  | next {level : Row → Prop} (missing : ∀ other, ¬level other) (later : First rest winner) : First (level :: rest) winner
  | nothing : First [] none

def order (method : Text) : List (Row → Prop) :=
  [Exact rows path method,Exact rows path ['*'],Longest rows path method,Longest rows path ['*']]

end Priority

section Scans
variable {path upperMethod : Text}

def applies (path method : Text) (row : Row) : Bool := startsWith path (stem row) && row.method = method

-- What one turn of the loop does with a row.
theorem scan_skip (starts : startsWith path (stem row) = false) :
    scan path upperMethod best (row :: rest) = scan path upperMethod best rest := by
  simp [scan,starts]

theorem scan_break (starts : startsWith path (stem row) = true) (own : row.method = upperMethod) :
    scan path upperMethod best (row :: rest) = (some row,best) := by
  simp [scan,starts,own]

theorem scan_keep (starts : startsWith path (stem row) = true) (own : row.method ≠ upperMethod) :
    scan path upperMethod best (row :: rest) = scan path upperMethod (best.or (if row.method = ['*'] then some row else none)) rest := by
  rw [scan]
  by_cases any : row.method = ['*']
  · rw [any] at own
    cases best with
    | none => simp [starts,own,any]
    | some held => simp [starts,own,any]
  · simp [starts,own,any]

-- Where the loop breaks, and what it holds where it does not.
theorem scan_method (best : Option Row) (rows : List Row) :
    (scan path upperMethod best rows).1 = rows.find? (applies path upperMethod) := by
  induction rows generalizing best with
  | nil => rfl
  | cons row rest ih =>
    cases starts : startsWith path (stem row) with
    | false =>
      rw [scan_skip starts,ih]
      simp [applies,starts]
    | true =>
      by_cases own : row.method = upperMethod
      · rw [scan_break starts own]
        simp [applies,starts,own]
      · rw [scan_keep starts own,ih]
        simp [applies,starts,own]

theorem scan_any (best : Option Row) (rows : List Row) (none_ : rows.find? (applies path upperMethod) = none) :
    (scan path upperMethod best rows).2 = best.or (rows.find? (applies path ['*'])) := by
  induction rows generalizing best with
  | nil => simp [scan]
  | cons row rest ih =>
    have other := List.find?_eq_none.mp none_ row List.mem_cons_self
    have later : rest.find? (applies path upperMethod) = none := by
      rwa [List.find?_cons_of_neg other] at none_
    cases starts : startsWith path (stem row) with
    | false =>
      rw [scan_skip starts,ih best later]
      simp [applies,starts]
    | true =>
      have own : row.method ≠ upperMethod := by simpa [applies,starts] using other
      rw [scan_keep starts own,ih _ later]
      by_cases any : row.method = ['*']
      · cases best with
        | none => simp [applies,starts,any]
        | some held => simp
      · simp [applies,starts,any]

theorem find_longest {rows : List Row} {p : Row → Bool} (sorted : rows.Pairwise fun one two => two.path_pattern.length ≤ one.path_pattern.length)
    (found : rows.find? p = some row) : ∀ other ∈ rows, p other = true → other.path_pattern.length ≤ row.path_pattern.length := by
  obtain ⟨own,before,after,rfl,earlier⟩ := List.find?_eq_some_iff_append.mp found
  intro other member holds
  rcases List.mem_append.mp member with front | back
  · have fails := earlier other front
    rw [holds] at fails
    cases fails
  · rcases List.mem_cons.mp back with rfl | later
    · exact Nat.le_refl _
    · exact (List.pairwise_cons.mp (List.pairwise_append.mp sorted).2.1).1 other later

end Scans

section Answers
variable {db : Query → List Row} {rows : List Row} {path method : Text}

theorem answers_mem (answers : Answers db rows) (query : Query) : row ∈ db query ↔ row ∈ rows ∧ query.wants row = true :=
  (answers.wanted query).mem_iff.trans List.mem_filter

theorem exact_mem (answers : Answers db rows) : row ∈ db (.exact path method) ↔ Exact rows path method row := by
  rw [answers_mem answers]
  simp only [Query.wants,Exact,active,decide_eq_true_eq]
  tauto

theorem any_mem (answers : Answers db rows) : row ∈ db (.exactPathWildcard path) ↔ Exact rows path ['*'] row := by
  rw [answers_mem answers]
  simp only [Query.wants,Exact,active,decide_eq_true_eq]
  tauto

theorem stem_iff (row : Row) : (∃ front, row.path_pattern = front ++ ['*'] ∧ startsWith path front = true) ↔
    endsWith row.path_pattern ['*'] = true ∧ startsWith path (stem row) = true := by
  constructor
  · intro split
    obtain ⟨front,same,starts⟩ := split
    refine ⟨List.isSuffixOf_iff_suffix.mpr ⟨front,same.symm⟩,?_⟩
    rwa [stem,same,List.dropLast_concat]
  · intro both
    obtain ⟨front,same⟩ := List.isSuffixOf_iff_suffix.mp both.1
    refine ⟨front,same.symm,?_⟩
    have starts := both.2
    rwa [stem,← same,List.dropLast_concat] at starts

theorem under_mem (answers : Answers db rows) :
    (row ∈ db .wildcards ∧ applies path method row = true) ↔ Under rows path method row := by
  rw [answers_mem answers,Under,stem_iff]
  simp only [Query.wants,applies,active,Bool.and_eq_true,decide_eq_true_eq]
  tauto

theorem under_found (answers : Answers db rows) (found : (db .wildcards).find? (applies path method) = some row) :
    Longest rows path method row := by
  refine ⟨(under_mem answers).mp ⟨List.mem_of_find?_eq_some found,List.find?_some found⟩,?_⟩
  intro other under
  obtain ⟨member,holds⟩ := (under_mem answers).mpr under
  exact find_longest answers.longestFirst found other member holds

theorem under_none (answers : Answers db rows) :
    (db .wildcards).find? (applies path method) = none ↔ ∀ other, ¬Under rows path method other := by
  rw [List.find?_eq_none]
  constructor
  · intro none_ other under
    obtain ⟨member,holds⟩ := (under_mem answers).mpr under
    exact none_ other member holds
  · intro none_ other member holds
    exact none_ other ((under_mem answers).mp ⟨member,holds⟩)

end Answers

theorem first_unique {levels : List (Row → Prop)} (unique : ∀ level ∈ levels, ∀ row other, level row → level other → row = other)
    (one : First levels winner) (two : First levels other) : winner = other := by
  induction one with
  | here found =>
    cases two with
    | here found_ => exact congrArg some (unique _ List.mem_cons_self _ _ found found_)
    | next missing later => exact absurd found (missing _)
  | next missing later ih =>
    cases two with
    | here found => exact absurd found (missing _)
    | next missing_ later_ => exact ih (fun level member => unique level (List.mem_cons_of_mem _ member)) later_
  | nothing => cases two; rfl

section Unique
variable {rows : List Row} {path method : Text}
  (distinct : ((rows.filter active).map fun row => (row.path_pattern,row.method)).Nodup)
include distinct

theorem same_row (one : row ∈ rows ∧ active row = true) (two : other ∈ rows ∧ active other = true)
    (pattern : row.path_pattern = other.path_pattern) (same : row.method = other.method) : row = other := by
  refine List.inj_on_of_nodup_map distinct (List.mem_filter.mpr one) (List.mem_filter.mpr two) ?_
  rw [pattern,same]

theorem exact_unique (one : Exact rows path method row) (two : Exact rows path method other) : row = other :=
  same_row distinct ⟨one.1,one.2.1⟩ ⟨two.1,two.2.1⟩ (one.2.2.1.trans two.2.2.1.symm) (one.2.2.2.trans two.2.2.2.symm)

-- Two patterns of one length that apply to a path are the same.
theorem longest_unique (one : Longest rows path method row) (two : Longest rows path method other) : row = other := by
  have length := Nat.le_antisymm (two.2 row one.1) (one.2 other two.1)
  obtain ⟨member,live,⟨front,shape,starts⟩,own⟩ := one.1
  obtain ⟨member_,live_,⟨front_,shape_,starts_⟩,own_⟩ := two.1
  refine same_row distinct ⟨member,live⟩ ⟨member_,live_⟩ ?_ (own.trans own_.symm)
  simp only [shape,shape_,List.length_append,Nat.add_right_cancel_iff] at length
  obtain ⟨rest,whole⟩ := startsWith_iff.mp starts
  obtain ⟨rest_,whole_⟩ := startsWith_iff.mp starts_
  obtain ⟨same,-⟩ := List.append_inj (whole.symm.trans whole_) length
  rw [shape,shape_,same]

theorem level_unique : ∀ level ∈ order rows path method, ∀ row other, level row → level other → row = other := by
  simp only [order,List.forall_mem_cons]
  exact ⟨fun _ _ => exact_unique distinct,fun _ _ => exact_unique distinct,fun _ _ => longest_unique distinct,
    fun _ _ => longest_unique distinct,by simp⟩

end Unique

section Choosing
variable {db : Query → List Row} {rows : List Row} {path method : Text} {toUpperCase : Text → Text}

theorem head_none {list : List Row} (none_ : list.head? = none) : ∀ row, row ∉ list := by
  rw [List.head?_eq_none_iff.mp none_]
  intro row member
  cases member

theorem head_some {list : List Row} (found : list.head? = some row) : row ∈ list := List.mem_of_head? found

theorem choose_first (answers : Answers db rows) : First (order rows path (toUpperCase method)) (choose toUpperCase db path method) := by
  unfold choose
  dsimp only
  cases first : (db (.exact path (toUpperCase method))).head? with
  | some row => exact .here ((exact_mem answers).mp (head_some first))
  | none =>
    refine .next (fun other found => head_none first other ((exact_mem answers).mpr found)) ?_
    cases second : (db (.exactPathWildcard path)).head? with
    | some row => exact .here ((any_mem answers).mp (head_some second))
    | none =>
      refine .next (fun other found => head_none second other ((any_mem answers).mpr found)) ?_
      have breaks : (scan path (toUpperCase method) none (db .wildcards)).1 = _ := scan_method none (db .wildcards)
      cases scanned : scan path (toUpperCase method) none (db .wildcards) with
      | mk bestMethodMatch bestWildcardMatch =>
        rw [scanned] at breaks
        cases bestMethodMatch with
        | some row => exact .here (under_found answers breaks.symm)
        | none =>
          refine .next (fun other found => (under_none answers).mp breaks.symm other found.1) ?_
          have held := scan_any none (db .wildcards) breaks.symm
          rw [scanned,Option.none_or] at held
          cases bestWildcardMatch with
          | some row => exact .here (under_found answers held.symm)
          | none => exact .next (fun other found => (under_none answers).mp held.symm other found.1) .nothing

-- Which row is chosen depends on the rows alone, not on the order of the
-- answers.
theorem override_exact (answers : Answers db rows) (distinct : ((rows.filter active).map fun row => (row.path_pattern,row.method)).Nodup)
    (jsonParse : Text → Except Thrown (List Text)) (path method : Text) : ∃ winner,
    First (order rows path (toUpperCase method)) winner ∧
    (∀ other, First (order rows path (toUpperCase method)) other → other = winner) ∧
    resolveEndpointAuth toUpperCase jsonParse db path method = winner.mapM (EndpointAuthOverrideRowSchema jsonParse) := by
  have first : First _ (choose toUpperCase db path method) := choose_first answers
  exact ⟨_,first,fun other also => first_unique (level_unique distinct) also first,rfl⟩

-- A shorter pattern for the method itself comes before a longer one for any.
def tables : List Row :=
  [{
    id := 1
    path_pattern := ['/','a','b','*']
    method := ['*']
    required_tier := none
    required_scopes := none
    is_public := 1
    is_active := 1
    created_at := []
    updated_at := [] },
  {
    id := 2
    path_pattern := ['/','a','*']
    method := ['G','E','T']
    required_tier := some ['p','r','o']
    required_scopes := none
    is_public := 0
    is_active := 1
    created_at := []
    updated_at := [] }]

theorem shorter_wins : ∃ winner,
    First (order tables ['/','a','b','c'] ['G','E','T']) winner ∧
    (∀ other, First (order tables ['/','a','b','c'] ['G','E','T']) other → other = winner) ∧
    resolveEndpointAuth (List.map Char.toUpper) (fun _ => .ok []) (fun query => tables.filter fun row => query.wants row) ['/','a','b','c'] ['g','e','t'] =
      winner.mapM (EndpointAuthOverrideRowSchema fun _ => .ok []) :=
  override_exact ⟨fun _ => .refl _,by decide⟩ (by decide) _ _ _

example : (choose (List.map Char.toUpper) (fun query => tables.filter fun row => query.wants row) ['/','a','b','c'] ['g','e','t']).map Row.id = some 2 := by decide

end Choosing

end AdblockCompiler.EndpointAuth
