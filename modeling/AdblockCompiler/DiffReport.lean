import AdblockCompiler.JsText

-- The report that compares two rule lists: what the two scans push, the
-- counts of the summary and the lines that reported rules are said to stand on.
namespace AdblockCompiler.DiffReport
open JsText

inductive RuleDiffCategory where
  | network | cosmetic | host | comment | unknown
  deriving DecidableEq, Repr

inductive DiffType where
  | added | removed
  deriving DecidableEq, Repr

structure RuleDiff where
  rule : Text
  type : DiffType
  originalLine : Option Nat := none
  newLine : Option Nat := none
  category : RuleDiffCategory
  syntaxName : Option Text
  isException : Option Bool
  deriving DecidableEq, Repr

structure CategoryCounts where
  added : Nat
  removed : Nat
  deriving DecidableEq, Repr

structure DiffSummary where
  originalCount : Nat
  newCount : Nat
  addedCount : Nat
  removedCount : Nat
  unchangedCount : Int
  netChange : Int
  categoryBreakdown : RuleDiffCategory → CategoryCounts

structure Report where
  originalRuleCount : Nat
  currentRuleCount : Nat
  summary : DiffSummary
  added : List RuleDiff
  removed : List RuleDiff

structure DiffOptions where
  includeFullRules : Bool := true
  maxRulesToInclude : Nat := 1000
  ignoreComments : Bool := true
  ignoreEmptyLines : Bool := true
  useAstNormalization : Bool := false
  deriving DecidableEq, Repr

-- What the generator asks of @adguard/agtree: the tree of a rule where there
-- is one, the text of a tree, and what the predicates of AGTreeParser look at.
inductive RuleKind where
  | comment | empty | host | network | cosmetic | other
  deriving DecidableEq, Repr

structure AGTree (Ast : Type) where
  parse : Text → Option Ast
  generate : Ast → Text
  kind : Ast → RuleKind
  syntaxName : Ast → Text
  isException : Ast → Bool

structure RuleInfo where
  category : RuleDiffCategory
  syntaxName : Option Text := none
  isException : Option Bool := none
  deriving DecidableEq, Repr

section Generator
variable {Ast : Type} (agtree : AGTree Ast) (options : DiffOptions)

def keeps (rule : Text) : Bool :=
  !(rule.isEmpty && options.ignoreEmptyLines) && !(options.ignoreComments && (startsWith rule ['!'] || startsWith rule ['#']))

def filterRules (rules : List Text) : List Text := (rules.map trim).filter (keeps options)

def getComparisonKey (rule : Text) : Text :=
  if options.useAstNormalization then
    match agtree.parse rule with
    | some ast => agtree.generate ast
    | none => rule
  else rule

def categorizeRule (rule : Text) : RuleInfo :=
  match agtree.parse rule with
  | none => { category := .unknown }
  | some ast =>
    let named := some (agtree.syntaxName ast)
    match agtree.kind ast with
    | .comment => { category := .comment, syntaxName := named }
    | .empty => { category := .unknown }
    | .host => { category := .host, syntaxName := named }
    | .network => { category := .network, syntaxName := named, isException := some (agtree.isException ast) }
    | .cosmetic => { category := .cosmetic, syntaxName := named, isException := some (agtree.isException ast) }
    | .other => { category := .unknown, syntaxName := if agtree.syntaxName ast = [] then none else named }

def removedAt (i : Nat) (rule : Text) : RuleDiff :=
  let info := categorizeRule agtree rule
  { rule, type := .removed, originalLine := some (i+1), category := info.category, syntaxName := info.syntaxName, isException := info.isException }

def addedAt (i : Nat) (rule : Text) : RuleDiff :=
  let info := categorizeRule agtree rule
  { rule, type := .added, newLine := some (i+1), category := info.category, syntaxName := info.syntaxName, isException := info.isException }

-- One of the two loops, from index i: what the keys of the other list lack is
-- pushed under its place in the list that is scanned.
def scan (keys : List Text) (entry : Nat → Text → RuleDiff) : Nat → List Text → List RuleDiff
  | _,[] => []
  | i,rule :: rest =>
    if getComparisonKey agtree options rule ∈ keys then scan keys entry (i+1) rest
    else entry i rule :: scan keys entry (i+1) rest

def breakdown (added removed : List RuleDiff) (category : RuleDiffCategory) : CategoryCounts :=
  ⟨added.countP (·.category = category),removed.countP (·.category = category)⟩

def generate (originalRules newRules : List Text) : Report :=
  let filteredOriginal := filterRules options originalRules
  let filteredNew := filterRules options newRules
  let originalKeySet := filteredOriginal.map (getComparisonKey agtree options)
  let newKeySet := filteredNew.map (getComparisonKey agtree options)
  let removed := scan agtree options newKeySet (removedAt agtree) 0 filteredOriginal
  let added := scan agtree options originalKeySet (addedAt agtree) 0 filteredNew
  { originalRuleCount := filteredOriginal.length
    currentRuleCount := filteredNew.length
    summary :=
      { originalCount := filteredOriginal.length
        newCount := filteredNew.length
        addedCount := added.length
        removedCount := removed.length
        unchangedCount := filteredOriginal.length - removed.length
        netChange := added.length - removed.length
        categoryBreakdown := breakdown added removed }
    added := if options.includeFullRules then added.take options.maxRulesToInclude else []
    removed := if options.includeFullRules then removed.take options.maxRulesToInclude else [] }

end Generator

section Places
variable {α : Type} {p q : α → Bool} {list : List α} {n k : Nat} {x : α}

theorem filter_place (stands : list[n]? = some x) (kept : p x = true) :
    (list.filter p)[(list.take n).countP p]? = some x := by
  obtain ⟨inside,rfl⟩ := List.getElem?_eq_some_iff.mp stands
  have whole : list = list.take n ++ list[n] :: list.drop (n+1) := by
    rw [List.cons_getElem_drop_succ,List.take_append_drop]
  have filtered : list.filter p = (list.take n).filter p ++ list[n] :: (list.drop (n+1)).filter p := by
    conv_lhs => rw [whole]
    rw [List.filter_append,List.filter_cons_of_pos kept]
  rw [filtered,List.countP_eq_length_filter,List.getElem?_append_right (Nat.le_refl _),Nat.sub_self]
  rfl

theorem filter_origin (stands : (list.filter p)[k]? = some x) :
    ∃ n, list[n]? = some x ∧ p x = true ∧ (list.take n).countP p = k := by
  induction list generalizing k with
  | nil => cases stands
  | cons y rest ih =>
    cases kept : p y with
    | false =>
      rw [List.filter_cons_of_neg (by simp [kept])] at stands
      obtain ⟨n,there,holds,before⟩ := ih stands
      exact ⟨n+1,there,holds,by simp [kept,before]⟩
    | true =>
      rw [List.filter_cons_of_pos kept] at stands
      cases k with
      | zero =>
        obtain rfl := Option.some.inj stands
        exact ⟨0,rfl,kept,rfl⟩
      | succ k =>
        obtain ⟨n,there,holds,before⟩ := ih stands
        exact ⟨n+1,there,holds,by simp [kept,before]⟩

theorem all_kept (inside : n ≤ list.length) : (∀ y ∈ list.take n, p y = true) ↔ (list.take n).countP p = n := by
  have length : (list.take n).length = n := List.length_take_of_le inside
  rw [← List.countP_eq_length,length]

-- Places in a filtered list are places in the list exactly where nothing was
-- dropped before the entry. Were a place wrong and still held by an equal
-- entry, that earlier entry would itself be counted before the later one.
theorem places_exact (list : List α) : (∀ (k : Nat) x, (list.filter p)[k]? = some x → q x = true → list[k]? = some x) ↔
    ∀ (n : Nat) x, list[n]? = some x → p x = true → q x = true → ∀ y ∈ list.take n, p y = true := by
  constructor
  · intro places n
    induction n using Nat.strong_induction_on with
    | _ n ih =>
      intro x stands kept asked
      obtain ⟨inside,-⟩ := List.getElem?_eq_some_iff.mp stands
      obtain ⟨k,counts⟩ : ∃ k, (list.take n).countP p = k := ⟨_,rfl⟩
      have place : list[k]? = some x := places k x (counts ▸ filter_place stands kept) asked
      have bound : k ≤ n := by
        rw [← counts]
        exact List.countP_le_length.trans (List.length_take_le n list)
      rcases Nat.lt_or_eq_of_le bound with earlier | same
      · have before : (list.take k).countP p = k := (all_kept (by omega)).mp (ih k earlier x place kept asked)
        have split : list.take n = list.take k ++ (list.take n).drop k := by
          conv_lhs => rw [← List.take_append_drop k (list.take n)]
          rw [List.take_take,Nat.min_eq_left bound]
        have later : x ∈ (list.take n).drop k := by
          refine List.mem_of_getElem? (i := 0) ?_
          rw [List.getElem?_drop,List.getElem?_take_of_lt (Nat.add_zero k ▸ earlier)]
          exact place
        have more : 0 < ((list.take n).drop k).countP p := List.countP_pos_iff.mpr ⟨x,later,kept⟩
        rw [split,List.countP_append,before] at counts
        omega
      · exact (all_kept (by omega)).mpr (counts.trans same)
  · intro undropped k x stands asked
    obtain ⟨n,there,kept,before⟩ := filter_origin stands
    obtain ⟨inside,-⟩ := List.getElem?_eq_some_iff.mp there
    rw [(all_kept (by omega)).mp (undropped n x there kept asked)] at before
    exact before ▸ there

end Places

section Scans
variable {Ast : Type} {agtree : AGTree Ast} {options : DiffOptions} {keys : List Text} {entry : Nat → Text → RuleDiff}

theorem scan_rules (named : ∀ i rule, (entry i rule).rule = rule) (i : Nat) (rules : List Text) :
    (scan agtree options keys entry i rules).map RuleDiff.rule =
      rules.filter fun rule => getComparisonKey agtree options rule ∉ keys := by
  induction rules generalizing i with
  | nil => rfl
  | cons rule rest ih =>
    by_cases found : getComparisonKey agtree options rule ∈ keys
    · rw [scan,if_pos found,List.filter_cons_of_neg (by simp [found]),ih]
    · rw [scan,if_neg found,List.filter_cons_of_pos (by simp [found]),List.map_cons,named,ih]

theorem mem_scan {rules : List Text} {i : Nat} : diff ∈ scan agtree options keys entry i rules ↔
    ∃ k rule, rules[k]? = some rule ∧ getComparisonKey agtree options rule ∉ keys ∧ diff = entry (i+k) rule := by
  induction rules generalizing i with
  | nil => simp [scan]
  | cons first rest ih =>
    have shifted : (∃ k rule, rest[k]? = some rule ∧ getComparisonKey agtree options rule ∉ keys ∧ diff = entry (i+1+k) rule) ↔
        ∃ k rule, (first :: rest)[k+1]? = some rule ∧ getComparisonKey agtree options rule ∉ keys ∧ diff = entry (i+(k+1)) rule := by
      simp only [List.getElem?_cons_succ,Nat.add_assoc,Nat.add_comm 1]
    by_cases found : getComparisonKey agtree options first ∈ keys
    · rw [scan,if_pos found,ih,shifted]
      constructor
      · rintro ⟨k,rule,rest⟩
        exact ⟨k+1,rule,rest⟩
      · rintro ⟨k,rule,stands,missing,same⟩
        cases k with
        | zero => exact absurd (Option.some.inj stands ▸ found) missing
        | succ k => exact ⟨k,rule,stands,missing,same⟩
    · rw [scan,if_neg found,List.mem_cons,ih,shifted]
      constructor
      · rintro (rfl | ⟨k,rule,rest⟩)
        · exact ⟨0,first,rfl,found,rfl⟩
        · exact ⟨k+1,rule,rest⟩
      · rintro ⟨k,rule,stands,missing,same⟩
        cases k with
        | zero =>
          obtain rfl := Option.some.inj stands
          exact .inl same
        | succ k => exact .inr ⟨k,rule,stands,missing,same⟩

end Scans

section Defaults
variable {Ast : Type} (agtree : AGTree Ast)

@[simp] theorem comparisonKey_default : getComparisonKey agtree {} = id := rfl

-- The rules of one filtered list that the other does not hold, line by line.
def missingFrom (others rules : List Text) : List Text :=
  (filterRules {} rules).filter (· ∉ filterRules {} others)

-- What the report of two lists should say under the default options.
structure Faithful (report : Report) (original new : List Text) : Prop where
  removed : report.removed.map RuleDiff.rule = missingFrom new original
  added : report.added.map RuleDiff.rule = missingFrom original new
  originalLines : ∀ diff ∈ report.removed, ∀ l, diff.originalLine = some l → (original[l-1]?).map trim = some diff.rule
  newLines : ∀ diff ∈ report.added, ∀ l, diff.newLine = some l → (new[l-1]?).map trim = some diff.rule
  counted : (report.summary.originalCount : Int) = report.summary.removedCount + report.summary.unchangedCount
  net : report.summary.netChange = report.summary.newCount - report.summary.originalCount

-- No comment and no blank line stands before a line whose rule is reported.
def Undisplaced (others rules : List Text) : Prop :=
  ∀ (n : Nat) line, rules[n]? = some line → trim line ∈ missingFrom others rules → ∀ before ∈ rules.take n, keeps {} (trim before) = true

-- How many lines of one filtered list hold a rule of the other.
def shared (others rules : List Text) : Nat := (filterRules {} rules).countP (· ∈ filterRules {} others)

structure Aligned (original new : List Text) : Prop where
  removals : (missingFrom new original).length ≤ 1000
  additions : (missingFrom original new).length ≤ 1000
  originalLines : Undisplaced new original
  newLines : Undisplaced original new
  repeats : shared original new = shared new original

theorem mem_missing {others rules : List Text} : rule ∈ missingFrom others rules ↔
    rule ∈ filterRules {} rules ∧ rule ∉ filterRules {} others := by
  rw [missingFrom,List.mem_filter,decide_eq_true_eq]

-- What a loop pushes under the default options.
def pushed (entry : Nat → Text → RuleDiff) (others rules : List Text) : List RuleDiff :=
  scan agtree {} ((filterRules {} others).map (getComparisonKey agtree {})) entry 0 (filterRules {} rules)

@[simp] theorem removedAt_rule (i : Nat) (rule : Text) : (removedAt agtree i rule).rule = rule := rfl
@[simp] theorem addedAt_rule (i : Nat) (rule : Text) : (addedAt agtree i rule).rule = rule := rfl

section Loop
variable {entry : Nat → Text → RuleDiff} (named : ∀ i rule, (entry i rule).rule = rule)
include named

theorem scan_missing (others rules : List Text) :
    (pushed agtree entry others rules).map RuleDiff.rule = missingFrom others rules := by
  rw [pushed,scan_rules named,comparisonKey_default,List.map_id]
  rfl

theorem scan_length (others rules : List Text) :
    (pushed agtree entry others rules).length = (missingFrom others rules).length := by
  rw [← scan_missing agtree named others rules,List.length_map]

-- The lines a loop reports are right exactly where nothing is displaced.
theorem lines_exact (line : RuleDiff → Option Nat) (numbered : ∀ i rule, line (entry i rule) = some (i+1)) (others rules : List Text) :
    (∀ diff ∈ pushed agtree entry others rules, ∀ l, line diff = some l → (rules[l-1]?).map trim = some diff.rule) ↔
      Undisplaced others rules := by
  have places := places_exact (p := keeps {}) (q := fun rule => rule ∉ filterRules {} others) (rules.map trim)
  constructor
  · intro right n text stands missing before member
    obtain ⟨listed,absent⟩ := mem_missing.mp missing
    refine places.mp ?_ n (trim text) (by rw [List.getElem?_map,stands]; rfl) (List.mem_filter.mp listed).2 (by simpa using absent)
      (trim before) (by rw [← List.map_take]; exact List.mem_map_of_mem member)
    intro k rule at_ outside
    have reported := right (entry (0+k) rule) (mem_scan.mpr ⟨k,rule,at_,by simpa using outside,rfl⟩) _ (numbered _ _)
    rwa [Nat.zero_add,Nat.add_sub_cancel,named,← List.getElem?_map] at reported
  · intro undisplaced diff member l reported
    obtain ⟨k,rule,at_,outside,rfl⟩ := mem_scan.mp member
    rw [numbered] at reported
    obtain rfl := Option.some.inj reported
    rw [Nat.zero_add,Nat.add_sub_cancel,named,← List.getElem?_map]
    refine places.mpr ?_ k rule at_ (by simpa using outside)
    intro n found stands kept absent before earlier
    rw [List.getElem?_map,Option.map_eq_some_iff] at stands
    obtain ⟨text,stands,rfl⟩ := stands
    rw [← List.map_take] at earlier
    obtain ⟨early,taken,rfl⟩ := List.mem_map.mp earlier
    refine undisplaced n text stands (mem_missing.mpr ⟨?_,by simpa using absent⟩) early taken
    exact List.mem_filter.mpr ⟨List.mem_map_of_mem (List.mem_of_getElem? stands),kept⟩

end Loop

-- The lines of a filtered list, split by whether the other holds their rule.
theorem missing_shared (others rules : List Text) :
    (filterRules {} rules).length = shared others rules + (missingFrom others rules).length := by
  rw [shared,missingFrom,← List.countP_eq_length_filter,List.length_eq_countP_add_countP (· ∈ filterRules {} others)]
  simp only [decide_eq_true_eq]

variable (original new : List Text)

theorem removed_default : (generate agtree {} original new).removed = (pushed agtree (removedAt agtree) new original).take 1000 := rfl
theorem added_default : (generate agtree {} original new).added = (pushed agtree (addedAt agtree) original new).take 1000 := rfl

theorem removed_listed : (generate agtree {} original new).removed.map RuleDiff.rule = missingFrom new original ↔
    (missingFrom new original).length ≤ 1000 := by
  rw [removed_default,List.map_take,scan_missing agtree (removedAt_rule agtree),List.take_eq_self_iff]

theorem added_listed : (generate agtree {} original new).added.map RuleDiff.rule = missingFrom original new ↔
    (missingFrom original new).length ≤ 1000 := by
  rw [added_default,List.map_take,scan_missing agtree (addedAt_rule agtree),List.take_eq_self_iff]

-- Below the cap the listed rules are all that the loop pushed.
theorem removed_uncapped (short : (missingFrom new original).length ≤ 1000) :
    (generate agtree {} original new).removed = pushed agtree (removedAt agtree) new original := by
  rw [removed_default]
  exact List.take_of_length_le (scan_length agtree (removedAt_rule agtree) new original ▸ short)

theorem added_uncapped (short : (missingFrom original new).length ≤ 1000) :
    (generate agtree {} original new).added = pushed agtree (addedAt agtree) original new := by
  rw [added_default]
  exact List.take_of_length_le (scan_length agtree (addedAt_rule agtree) original new ▸ short)

theorem net_exact : (generate agtree {} original new).summary.netChange =
      (generate agtree {} original new).summary.newCount - (generate agtree {} original new).summary.originalCount ↔
    shared original new = shared new original := by
  have before := missing_shared new original
  have after := missing_shared original new
  have dropped : (generate agtree {} original new).summary.netChange =
      (missingFrom original new).length - (missingFrom new original).length := by
    have additions := scan_length agtree (addedAt_rule agtree) original new
    have removals := scan_length agtree (removedAt_rule agtree) new original
    rw [← additions,← removals]
    rfl
  have counts : (generate agtree {} original new).summary.newCount = (filterRules {} new).length ∧
      (generate agtree {} original new).summary.originalCount = (filterRules {} original).length := ⟨rfl,rfl⟩
  rw [dropped,counts.1,counts.2]
  omega

-- The default report is the faithful one exactly for short differences, rules
-- with nothing dropped before them and shared rules repeated equally often.
theorem report_exact : Faithful (generate agtree {} original new) original new ↔ Aligned original new := by
  have removed_lines : (∀ diff ∈ pushed agtree (removedAt agtree) new original, _) ↔ _ :=
    lines_exact agtree (removedAt_rule agtree) RuleDiff.originalLine (fun _ _ => rfl) new original
  have added_lines : (∀ diff ∈ pushed agtree (addedAt agtree) original new, _) ↔ _ :=
    lines_exact agtree (addedAt_rule agtree) RuleDiff.newLine (fun _ _ => rfl) original new
  constructor
  · intro faithful
    have removals := (removed_listed agtree original new).mp faithful.removed
    have additions := (added_listed agtree original new).mp faithful.added
    have originalLines := faithful.originalLines
    rw [removed_uncapped agtree original new removals] at originalLines
    have newLines := faithful.newLines
    rw [added_uncapped agtree original new additions] at newLines
    exact {
      removals
      additions
      originalLines := removed_lines.mp originalLines
      newLines := added_lines.mp newLines
      repeats := (net_exact agtree original new).mp faithful.net }
  · intro aligned
    have originalLines := removed_lines.mpr aligned.originalLines
    rw [← removed_uncapped agtree original new aligned.removals] at originalLines
    have newLines := added_lines.mpr aligned.newLines
    rw [← added_uncapped agtree original new aligned.additions] at newLines
    exact {
      removed := (removed_listed agtree original new).mpr aligned.removals
      added := (added_listed agtree original new).mpr aligned.additions
      originalLines
      newLines
      counted := by simp [generate]
      net := (net_exact agtree original new).mpr aligned.repeats }

end Defaults

-- No rule has a tree.
def noTrees : AGTree Unit := ⟨fun _ => none,fun _ => [],fun _ => .other,fun _ => [],fun _ => false⟩

-- A comment moves the reported line of the rule below it, and a rule that
-- stands twice in the original counts twice as unchanged.
theorem report_unfaithful :
    (¬ Faithful (generate noTrees {} ["! title".toList,"||a.com^".toList] []) ["! title".toList,"||a.com^".toList] []) ∧
      ¬ Faithful (generate noTrees {} ["||a.com^".toList,"||a.com^".toList] ["||a.com^".toList])
          ["||a.com^".toList,"||a.com^".toList] ["||a.com^".toList] := by
  constructor
  · intro faithful
    have reported := faithful.originalLines (removedAt noTrees 0 "||a.com^".toList) (by decide) 1 rfl
    exact absurd reported (by decide)
  · intro faithful
    exact absurd faithful.net (by decide)

end AdblockCompiler.DiffReport
