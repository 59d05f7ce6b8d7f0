import AdblockCompiler.Optimizer

namespace AdblockCompiler.Conflicts
open JsText Rules

inductive Recommendation where
  | keepBlock | keepAllow | manualReview
  deriving DecidableEq, Repr

inductive ResolutionStrategy where
  | keepBlock | keepAllow | keepFirst
  deriving DecidableEq, Repr

structure RuleConflict where
  blockingRule : Text
  allowingRule : Text
  domain : Text
  blockingIndex : Nat
  allowingIndex : Nat
  recommendation : Recommendation
  reason : Text
  deriving DecidableEq, Repr

structure ConflictDetectionOptions where
  autoResolve : Bool := false
  resolutionStrategy : ResolutionStrategy := .keepBlock

structure Entry where
  rule : Text
  index : Nat
  deriving DecidableEq, Repr

-- A Map of lists, in the order in which its keys were set.
abbrev Table := List (Text × List Entry)

def Table.get (table : Table) (hostname : Text) : List Entry :=
  ((table.find? (·.1 = hostname)).map Prod.snd).getD []

def Table.push (table : Table) (hostname : Text) (entry : Entry) : Table :=
  if table.any (·.1 = hostname) then table.map fun row => if row.1 = hostname then (row.1,row.2 ++ [entry]) else row
  else table ++ [(hostname,[entry])]

structure Categories where
  blockingByDomain : Table := []
  allowingByDomain : Table := []

-- [a-z0-9.-] with the flag i.
def isNameChar (c : Char) : Bool := c.isAlphanum || c == '.' || c == '-'

section Detection
-- exempts is the exception flag of a cosmetic rule, which the rule tree of the
-- model does not hold.
variable (parser : RuleParser) (exempts : Text → Bool)

def isAllowRule (ruleText : Text) : Bool :=
  match AGTreeParser.parse parser ruleText with
  | some (.network rule) => rule.exception
  | some .other => exempts ruleText
  | some _ => false
  | none => startsWith ruleText ['@','@']

def extractDomain (rule : Text) : Option Text :=
  let cleanRule := if startsWith rule ['@','@'] then rule.drop 2 else rule
  let parsed := loadAdblockRuleProperties parser (if startsWith cleanRule ['@','@'] then cleanRule else rule)
  if parsed.hostname.getD [] ≠ [] then parsed.hostname.map lowerCase
  else
    let name := (cleanRule.drop 2).takeWhile isNameChar
    if startsWith cleanRule ['|','|'] ∧ name ≠ [] then some (lowerCase name)
    else if isJustDomain cleanRule then some (lowerCase cleanRule)
    else none

def Categories.visit (categories : Categories) (line : Text × Nat) : Categories :=
  let rule := trim line.1
  if Optimizer.skipped rule then categories
  else
    match extractDomain parser rule with
    | none => categories
    | some hostname =>
      if isAllowRule parser exempts rule then
        { categories with allowingByDomain := categories.allowingByDomain.push hostname ⟨rule,line.2⟩ }
      else { categories with blockingByDomain := categories.blockingByDomain.push hostname ⟨rule,line.2⟩ }

-- rule.split('$')[1]
def optionsText (rule : Text) : Text := if '$' ∈ rule then (rule.splitOn '$').getD 1 [] else []

def createConflict (blocking allowing : Entry) (domain : Text) : RuleConflict :=
  let blockingOptions := optionsText blocking.rule
  let allowingOptions := optionsText allowing.rule
  let verdict : Recommendation × Text :=
    if allowingOptions.length > blockingOptions.length then (.keepAllow,"Exception rule is more specific".toList)
    else if blockingOptions.length > allowingOptions.length then (.keepBlock,"Blocking rule is more specific".toList)
    else (.manualReview,"Both rules apply to the same domain".toList)
  ⟨blocking.rule,allowing.rule,domain,blocking.index,allowing.index,verdict.1,verdict.2⟩

def subdomainReason (domain : Text) : Text :=
  "Exception for subdomain \"".toList ++ domain ++ "\" conflicts with parent domain blocking rule".toList

def checkSubdomainConflicts (domain : Text) (allowingRules : List Entry) (blockingByDomain : Table) : List RuleConflict :=
  (Optimizer.parentDomains domain).flatMap fun parentDomain =>
    (blockingByDomain.get parentDomain).flatMap fun blocking =>
      allowingRules.map fun allowing =>
        { createConflict blocking allowing domain with
          reason := subdomainReason domain
          recommendation := .manualReview }

def Categories.conflicts (categories : Categories) : List RuleConflict :=
  categories.allowingByDomain.flatMap fun row =>
    ((categories.blockingByDomain.get row.1).flatMap fun blocking =>
      row.2.map fun allowing => createConflict blocking allowing row.1) ++
    checkSubdomainConflicts row.1 row.2 categories.blockingByDomain

def detect (rules : List Text) : List RuleConflict := (rules.zipIdx.foldl (Categories.visit parser exempts) {}).conflicts

def removedIndex (strategy : ResolutionStrategy) (conflict : RuleConflict) : Nat :=
  match strategy with
  | .keepBlock => conflict.allowingIndex
  | .keepAllow => conflict.blockingIndex
  | .keepFirst =>
    if conflict.blockingIndex < conflict.allowingIndex then conflict.allowingIndex else conflict.blockingIndex

def resolveConflicts (strategy : ResolutionStrategy) (conflicts : List RuleConflict) (rules : List Text) : List Text :=
  let indicesToRemove := conflicts.map (removedIndex strategy)
  (rules.zipIdx.filter fun line => line.2 ∉ indicesToRemove).map Prod.fst

-- The rules, and the conflicts that the instance then holds.
def executeSync (options : ConflictDetectionOptions) (rules : List Text) : List Text × List RuleConflict :=
  let conflicts := detect parser exempts rules
  if options.autoResolve ∧ 0 < conflicts.length then (resolveConflicts options.resolutionStrategy conflicts rules,conflicts)
  else (rules,conflicts)

theorem resolve_sublist (strategy : ResolutionStrategy) (conflicts : List RuleConflict) (rules : List Text) :
    (resolveConflicts strategy conflicts rules).Sublist rules := by
  have kept : (resolveConflicts strategy conflicts rules).Sublist (rules.zipIdx.map Prod.fst) := List.filter_sublist.map Prod.fst
  rwa [List.zipIdx_map_fst] at kept

-- Lines are only ever taken away, and none without autoResolve.
theorem executeSync_sublist (options : ConflictDetectionOptions) (rules : List Text) :
    (executeSync parser exempts options rules).1.Sublist rules := by
  rw [executeSync]
  split
  · exact resolve_sublist _ _ _
  · exact List.Sublist.refl rules

theorem executeSync_reports (quiet : options.autoResolve = false) (rules : List Text) :
    executeSync parser exempts options rules = (rules,detect parser exempts rules) := by
  simp [executeSync,quiet]

end Detection

section Tables

theorem get_push (table : Table) (hostname other : Text) (entry : Entry) :
    (table.push hostname entry).get other = if other = hostname then table.get hostname ++ [entry] else table.get other := by
  unfold Table.push
  split
  · next known =>
    have same : ((fun row : Text × List Entry => decide (row.1 = other)) ∘
        fun row => if row.1 = hostname then (row.1,row.2 ++ [entry]) else row) = fun row => decide (row.1 = other) := by
      funext row
      by_cases own : row.1 = hostname <;> simp [own]
    rw [Table.get,List.find?_map,same,Table.get,Table.get]
    by_cases own : other = hostname
    · subst own
      obtain ⟨row,member,named⟩ := List.any_eq_true.mp known
      have some_ : (table.find? fun row => decide (row.1 = other)).isSome = true := List.find?_isSome.mpr ⟨row,member,named⟩
      obtain ⟨first,found⟩ := Option.isSome_iff_exists.mp some_
      have key : first.1 = other := of_decide_eq_true (List.find?_some (p := fun row : Text × List Entry => decide (row.1 = other)) found)
      simp [found,key]
    · rw [if_neg own]
      cases found : table.find? (fun row => decide (row.1 = other)) with
      | none => rfl
      | some row =>
        have key : row.1 = other := of_decide_eq_true (List.find?_some (p := fun row : Text × List Entry => decide (row.1 = other)) found)
        simp [key,own]
  · next fresh =>
    rw [Table.get,List.find?_append,Table.get,Table.get]
    by_cases own : other = hostname
    · subst own
      have none : table.find? (fun row => decide (row.1 = other)) = none := by
        rw [List.find?_eq_none]
        intro row member named
        exact fresh (List.any_eq_true.mpr ⟨row,member,named⟩)
      simp [none]
    · have differs : ¬hostname = other := fun same => own same.symm
      simp [own,differs]

theorem rows_push (table : Table) (hostname other : Text) (entry one : Entry) :
    (∃ row ∈ table.push hostname entry, row.1 = other ∧ one ∈ row.2) ↔
      (∃ row ∈ table, row.1 = other ∧ one ∈ row.2) ∨ (other = hostname ∧ one = entry) := by
  unfold Table.push
  split
  · next known =>
    constructor
    · rintro ⟨row,member,named,inside⟩
      obtain ⟨old,there,rfl⟩ := List.mem_map.mp member
      by_cases own : old.1 = hostname
      · rw [if_pos own] at named inside
        rcases List.mem_append.mp inside with before | new
        · exact .inl ⟨old,there,named,before⟩
        · exact .inr ⟨named.symm.trans own,List.mem_singleton.mp new⟩
      · rw [if_neg own] at named inside
        exact .inl ⟨old,there,named,inside⟩
    · rintro (⟨row,member,named,inside⟩ | ⟨rfl,rfl⟩)
      · refine ⟨_,List.mem_map.mpr ⟨row,member,rfl⟩,?_⟩
        by_cases own : row.1 = hostname
        · rw [if_pos own]
          exact ⟨named,List.mem_append_left _ inside⟩
        · rw [if_neg own]
          exact ⟨named,inside⟩
      · obtain ⟨row,member,named⟩ := List.any_eq_true.mp known
        have own : row.1 = other := of_decide_eq_true named
        refine ⟨_,List.mem_map.mpr ⟨row,member,rfl⟩,?_⟩
        rw [if_pos own]
        exact ⟨own,List.mem_append_right _ List.mem_cons_self⟩
  · next fresh =>
    constructor
    · rintro ⟨row,member,named,inside⟩
      rcases List.mem_append.mp member with old | new
      · exact .inl ⟨row,old,named,inside⟩
      · rw [List.mem_singleton.mp new] at named inside
        exact .inr ⟨named.symm,List.mem_singleton.mp inside⟩
    · rintro (⟨row,member,named,inside⟩ | ⟨rfl,rfl⟩)
      · exact ⟨row,List.mem_append_left _ member,named,inside⟩
      · exact ⟨_,List.mem_append_right _ List.mem_cons_self,rfl,List.mem_cons_self⟩

end Tables

section Clashes
variable (parser : RuleParser) (exempts : Text → Bool)

-- Where the first pass files a line: whether under the exceptions, and the domain.
def sideOf (line : Text) : Option (Bool × Text) :=
  let rule := trim line
  if Optimizer.skipped rule then none
  else (extractDomain parser rule).map fun hostname => (isAllowRule parser exempts rule,hostname)

-- An exception of the same domain or of one below it.
def clashes (blocking allowing : Text) : Bool :=
  match sideOf parser exempts blocking,sideOf parser exempts allowing with
  | some (false,parent),some (true,domain) => parent = domain || parent ∈ Optimizer.parentDomains domain
  | _,_ => false

def inConflict (one other : Text) : Bool := clashes parser exempts one other || clashes parser exempts other one

theorem clashes_exact : clashes parser exempts one two = true ↔
    ∃ parent domain, sideOf parser exempts one = some (false,parent) ∧ sideOf parser exempts two = some (true,domain) ∧
      (parent = domain ∨ parent ∈ Optimizer.parentDomains domain) := by
  unfold clashes
  split
  · next parent domain first second => simp [first,second]
  · next other =>
    refine ⟨fun none => absurd none Bool.false_ne_true,?_⟩
    rintro ⟨parent,domain,first,second,-⟩
    exact absurd second (other parent domain first)

-- The tables hold the lines seen so far under their domains.
structure Filed (seen : List (Text × Nat)) (categories : Categories) : Prop where
  blocking : ∀ hostname entry, entry ∈ categories.blockingByDomain.get hostname ↔
    ∃ line ∈ seen, sideOf parser exempts line.1 = some (false,hostname) ∧ entry = ⟨trim line.1,line.2⟩
  allowing : ∀ hostname entry, (∃ row ∈ categories.allowingByDomain, row.1 = hostname ∧ entry ∈ row.2) ↔
    ∃ line ∈ seen, sideOf parser exempts line.1 = some (true,hostname) ∧ entry = ⟨trim line.1,line.2⟩

-- One more line that is filed elsewhere, or nowhere.
theorem filed_elsewhere (line : Text × Nat) (other : sideOf parser exempts line.1 ≠ some (side,hostname)) :
    (∃ one ∈ seen ++ [line], sideOf parser exempts one.1 = some (side,hostname) ∧ entry = (⟨trim one.1,one.2⟩ : Entry)) ↔
      ∃ one ∈ seen, sideOf parser exempts one.1 = some (side,hostname) ∧ entry = ⟨trim one.1,one.2⟩ := by
  simp only [List.mem_append,List.mem_singleton,or_and_right,exists_or]
  simp [other]

theorem filed_here (line : Text × Nat) (own : sideOf parser exempts line.1 = some (side,hostname)) :
    (∃ one ∈ seen ++ [line], sideOf parser exempts one.1 = some (side,hostname) ∧ entry = (⟨trim one.1,one.2⟩ : Entry)) ↔
      (∃ one ∈ seen, sideOf parser exempts one.1 = some (side,hostname) ∧ entry = ⟨trim one.1,one.2⟩) ∨
        entry = ⟨trim line.1,line.2⟩ := by
  simp only [List.mem_append,List.mem_singleton,or_and_right,exists_or]
  simp [own]

theorem visit_side (categories : Categories) (line : Text × Nat) :
    categories.visit parser exempts line =
      match sideOf parser exempts line.1 with
      | none => categories
      | some (true,hostname) => { categories with allowingByDomain := categories.allowingByDomain.push hostname ⟨trim line.1,line.2⟩ }
      | some (false,hostname) => { categories with blockingByDomain := categories.blockingByDomain.push hostname ⟨trim line.1,line.2⟩ } := by
  unfold Categories.visit sideOf
  dsimp only
  split
  · rfl
  · cases extractDomain parser (trim line.1) with
    | none => rfl
    | some hostname => cases isAllowRule parser exempts (trim line.1) <;> rfl

theorem filed_step (filed : Filed parser exempts seen categories) (line : Text × Nat) :
    Filed parser exempts (seen ++ [line]) (categories.visit parser exempts line) := by
  rw [visit_side]
  cases side : sideOf parser exempts line.1 with
  | none =>
    refine ⟨fun hostname entry => ?_,fun hostname entry => ?_⟩
    · rw [filed_elsewhere parser exempts line (by simp [side])]
      exact filed.blocking hostname entry
    · rw [filed_elsewhere parser exempts line (by simp [side])]
      exact filed.allowing hostname entry
  | some found =>
    obtain ⟨exception,domain⟩ := found
    cases exception with
    | true =>
      refine ⟨fun hostname entry => ?_,fun hostname entry => ?_⟩
      · rw [filed_elsewhere parser exempts line (by simp [side])]
        exact filed.blocking hostname entry
      · rw [rows_push,filed.allowing]
        by_cases same : hostname = domain
        · rw [filed_here parser exempts line (by rw [side,same])]
          simp [same]
        · rw [filed_elsewhere parser exempts line (by simp [side,Ne.symm same])]
          simp [same]
    | false =>
      refine ⟨fun hostname entry => ?_,fun hostname entry => ?_⟩
      · rw [get_push]
        by_cases same : hostname = domain
        · rw [if_pos same,List.mem_append,List.mem_singleton,filed.blocking,filed_here parser exempts line (by rw [side,same]),same]
        · rw [if_neg same,filed.blocking,filed_elsewhere parser exempts line (by simp [side,Ne.symm same])]
      · rw [filed_elsewhere parser exempts line (by simp [side])]
        exact filed.allowing hostname entry

theorem filed_run (lines : List (Text × Nat)) : Filed parser exempts lines (lines.foldl (Categories.visit parser exempts) {}) := by
  induction lines using List.reverseRecOn with
  | nil => exact ⟨fun _ _ => by simp [Table.get],fun _ _ => by simp⟩
  | append_singleton seen line ih =>
    rw [List.foldl_append]
    exact filed_step parser exempts ih line

theorem conflict_pairs (categories : Categories) (i j : Nat) :
    (∃ conflict ∈ categories.conflicts, conflict.blockingIndex = i ∧ conflict.allowingIndex = j) ↔
      ∃ domain parent, (parent = domain ∨ parent ∈ Optimizer.parentDomains domain) ∧
        (∃ entry ∈ categories.blockingByDomain.get parent, entry.index = i) ∧
          ∃ entry, (∃ row ∈ categories.allowingByDomain, row.1 = domain ∧ entry ∈ row.2) ∧ entry.index = j := by
  constructor
  · rintro ⟨conflict,member,rfl,rfl⟩
    obtain ⟨row,there,here⟩ := List.mem_flatMap.mp member
    rcases List.mem_append.mp here with same | above
    · obtain ⟨one,blocking,pairs⟩ := List.mem_flatMap.mp same
      obtain ⟨two,allowing,rfl⟩ := List.mem_map.mp pairs
      exact ⟨row.1,row.1,.inl rfl,⟨one,blocking,rfl⟩,two,⟨row,there,rfl,allowing⟩,rfl⟩
    · obtain ⟨parent,inside,below⟩ := List.mem_flatMap.mp above
      obtain ⟨one,blocking,pairs⟩ := List.mem_flatMap.mp below
      obtain ⟨two,allowing,rfl⟩ := List.mem_map.mp pairs
      exact ⟨row.1,parent,.inr inside,⟨one,blocking,rfl⟩,two,⟨row,there,rfl,allowing⟩,rfl⟩
  · rintro ⟨domain,parent,above,⟨one,blocking,rfl⟩,two,⟨row,there,rfl,allowing⟩,rfl⟩
    rcases above with rfl | above
    · refine ⟨createConflict one two row.1,List.mem_flatMap.mpr ⟨row,there,List.mem_append_left _ ?_⟩,rfl,rfl⟩
      exact List.mem_flatMap.mpr ⟨one,blocking,List.mem_map.mpr ⟨two,allowing,rfl⟩⟩
    · refine ⟨{ createConflict one two row.1 with reason := subdomainReason row.1, recommendation := .manualReview },
        List.mem_flatMap.mpr ⟨row,there,List.mem_append_right _ (List.mem_flatMap.mpr ⟨parent,above,?_⟩)⟩,rfl,rfl⟩
      exact List.mem_flatMap.mpr ⟨one,blocking,List.mem_map.mpr ⟨two,allowing,rfl⟩⟩

-- The detection finds the pairs of lines that clash.
theorem detect_exact (rules : List Text) (i j : Nat) :
    (∃ conflict ∈ detect parser exempts rules, conflict.blockingIndex = i ∧ conflict.allowingIndex = j) ↔
      ∃ one two, rules[i]? = some one ∧ rules[j]? = some two ∧ clashes parser exempts one two = true := by
  have filed := filed_run parser exempts rules.zipIdx
  rw [detect,conflict_pairs]
  simp only [filed.blocking,filed.allowing,clashes_exact]
  constructor
  · rintro ⟨domain,parent,above,⟨one,⟨line,here,block,rfl⟩,rfl⟩,two,⟨other,there,allow,rfl⟩,rfl⟩
    exact ⟨line.1,other.1,List.mem_zipIdx_iff_getElem?.mp here,List.mem_zipIdx_iff_getElem?.mp there,parent,domain,block,allow,above⟩
  · rintro ⟨one,two,here,there,parent,domain,block,allow,above⟩
    exact ⟨domain,parent,above,⟨_,⟨(one,i),List.mem_zipIdx_iff_getElem?.mpr here,block,rfl⟩,rfl⟩,
      _,⟨(two,j),List.mem_zipIdx_iff_getElem?.mpr there,allow,rfl⟩,rfl⟩

theorem detect_none (rules : List Text) :
    detect parser exempts rules = [] ↔ ∀ one ∈ rules, ∀ two ∈ rules, clashes parser exempts one two = false := by
  constructor
  · intro none one here two there
    obtain ⟨i,at_i⟩ := List.mem_iff_getElem?.mp here
    obtain ⟨j,at_j⟩ := List.mem_iff_getElem?.mp there
    by_contra clash
    obtain ⟨conflict,found,-⟩ := (detect_exact parser exempts rules i j).mpr ⟨one,two,at_i,at_j,Bool.not_eq_false _ ▸ clash⟩
    rw [none] at found
    cases found
  · intro free
    by_contra some_
    obtain ⟨conflict,found⟩ := List.exists_mem_of_ne_nil _ some_
    obtain ⟨one,two,at_i,at_j,clash⟩ := (detect_exact parser exempts rules _ _).mp ⟨conflict,found,rfl,rfl⟩
    rw [free one (List.mem_of_getElem? at_i) two (List.mem_of_getElem? at_j)] at clash
    cases clash

end Clashes

section Resolution
variable (parser : RuleParser) (exempts : Text → Bool)

def removed (strategy : ResolutionStrategy) (rules : List Text) : List Nat :=
  (detect parser exempts rules).map (removedIndex strategy)

theorem executeSync_removed (strategy : ResolutionStrategy) (rules : List Text) :
    (executeSync parser exempts ⟨true,strategy⟩ rules).1 =
      (rules.zipIdx.filter fun line => line.2 ∉ removed parser exempts strategy rules).map Prod.fst := by
  unfold executeSync
  dsimp only
  split
  · rfl
  · next none =>
    have empty : detect parser exempts rules = [] := by simpa using none
    have every : rules.zipIdx.filter (fun line => decide (line.2 ∉ removed parser exempts strategy rules)) = rules.zipIdx := by
      rw [removed,empty]
      simp
    rw [every,List.zipIdx_map_fst]

-- Of two lines that clash one goes, under each strategy.
theorem removed_covers (strategy : ResolutionStrategy) (rules : List Text) (here : (one,i) ∈ rules.zipIdx) (there : (two,j) ∈ rules.zipIdx)
    (clash : clashes parser exempts one two = true) :
    i ∈ removed parser exempts strategy rules ∨ j ∈ removed parser exempts strategy rules := by
  have pair := (detect_exact parser exempts rules i j).mpr
    ⟨one,two,List.mem_zipIdx_iff_getElem?.mp here,List.mem_zipIdx_iff_getElem?.mp there,clash⟩
  obtain ⟨conflict,found,rfl,rfl⟩ := pair
  have gone : removedIndex strategy conflict ∈ removed parser exempts strategy rules := List.mem_map.mpr ⟨conflict,found,rfl⟩
  cases strategy with
  | keepBlock => exact .inr gone
  | keepAllow => exact .inl gone
  | keepFirst =>
    unfold removedIndex at gone
    dsimp only at gone
    split at gone
    · exact .inr gone
    · exact .inl gone

theorem resolved_free (strategy : ResolutionStrategy) (rules : List Text) :
    detect parser exempts (executeSync parser exempts ⟨true,strategy⟩ rules).1 = [] := by
  rw [detect_none,executeSync_removed]
  intro one here two there
  obtain ⟨line,left,rfl⟩ := List.mem_map.mp here
  obtain ⟨other,right,rfl⟩ := List.mem_map.mp there
  obtain ⟨inside,kept⟩ := List.mem_filter.mp left
  obtain ⟨within,stays⟩ := List.mem_filter.mp right
  by_contra clash
  rcases removed_covers parser exempts strategy rules inside within (Bool.not_eq_false _ ▸ clash) with gone | gone
  · exact of_decide_eq_true kept gone
  · exact of_decide_eq_true stays gone

-- An exception never stands on the other side.
theorem clashes_sides (clash : clashes parser exempts one two = true) (other : clashes parser exempts two three = true) : False := by
  obtain ⟨_,_,_,allow,_⟩ := (clashes_exact parser exempts).mp clash
  obtain ⟨_,_,block,_⟩ := (clashes_exact parser exempts).mp other
  rw [allow] at block
  cases block

theorem conflict_pair (rules : List Text) (found : conflict ∈ detect parser exempts rules) :
    ∃ one two, (one,conflict.blockingIndex) ∈ rules.zipIdx ∧ (two,conflict.allowingIndex) ∈ rules.zipIdx ∧
      clashes parser exempts one two = true := by
  obtain ⟨one,two,at_i,at_j,clash⟩ := (detect_exact parser exempts rules _ _).mp ⟨conflict,found,rfl,rfl⟩
  exact ⟨one,two,List.mem_zipIdx_iff_getElem?.mpr at_i,List.mem_zipIdx_iff_getElem?.mpr at_j,clash⟩

theorem place_line {rules : List Text} (here : (one,i) ∈ rules.zipIdx) (there : (two,i) ∈ rules.zipIdx) : one = two :=
  Option.some.inj ((List.mem_zipIdx_iff_getElem?.mp here).symm.trans (List.mem_zipIdx_iff_getElem?.mp there))

-- No line is the blocking rule of one conflict and the exception of another.
theorem sides_apart (rules : List Text) (found : conflict ∈ detect parser exempts rules) (listed : another ∈ detect parser exempts rules) :
    conflict.blockingIndex ≠ another.allowingIndex := by
  intro same
  obtain ⟨one,_,at_one,-,clash⟩ := conflict_pair parser exempts rules found
  obtain ⟨_,two,-,at_two,other⟩ := conflict_pair parser exempts rules listed
  rw [same] at at_one
  obtain rfl := place_line at_one at_two
  exact clashes_sides parser exempts other clash

-- Where one side of each conflict goes, the other side stays.
theorem removed_faced (rules : List Text) (other : RuleConflict → Nat)
    (faces : ∀ conflict ∈ detect parser exempts rules, ∃ one two, (one,removedIndex strategy conflict) ∈ rules.zipIdx ∧
      (two,other conflict) ∈ rules.zipIdx ∧ inConflict parser exempts one two = true)
    (apart : ∀ conflict ∈ detect parser exempts rules, ∀ another ∈ detect parser exempts rules,
      removedIndex strategy another ≠ other conflict)
    (here : line ∈ rules.zipIdx) (gone : line.2 ∈ removed parser exempts strategy rules) :
    ∃ kept ∈ rules.zipIdx, kept.2 ∉ removed parser exempts strategy rules ∧ inConflict parser exempts line.1 kept.1 = true := by
  obtain ⟨conflict,found,same⟩ := List.mem_map.mp gone
  obtain ⟨one,two,at_one,at_two,clash⟩ := faces conflict found
  rw [same] at at_one
  obtain rfl := place_line at_one here
  refine ⟨(two,other conflict),at_two,?_,clash⟩
  intro again
  obtain ⟨another,listed,equal⟩ := List.mem_map.mp again
  exact apart conflict found another listed equal

-- An exception goes for a blocking rule that stays.
theorem removed_allowing (rules : List Text) (here : line ∈ rules.zipIdx) (gone : line.2 ∈ removed parser exempts .keepBlock rules) :
    ∃ other ∈ rules.zipIdx, other.2 ∉ removed parser exempts .keepBlock rules ∧ inConflict parser exempts line.1 other.1 = true := by
  refine removed_faced parser exempts rules RuleConflict.blockingIndex ?_ ?_ here gone
  · intro conflict found
    obtain ⟨one,two,at_one,at_two,clash⟩ := conflict_pair parser exempts rules found
    exact ⟨two,one,at_two,at_one,by rw [inConflict,clash,Bool.or_true]⟩
  · intro conflict found another listed
    exact (sides_apart parser exempts rules found listed).symm

theorem removed_blocking (rules : List Text) (here : line ∈ rules.zipIdx) (gone : line.2 ∈ removed parser exempts .keepAllow rules) :
    ∃ other ∈ rules.zipIdx, other.2 ∉ removed parser exempts .keepAllow rules ∧ inConflict parser exempts line.1 other.1 = true := by
  refine removed_faced parser exempts rules RuleConflict.allowingIndex ?_ ?_ here gone
  · intro conflict found
    obtain ⟨one,two,at_one,at_two,clash⟩ := conflict_pair parser exempts rules found
    exact ⟨one,two,at_one,at_two,by rw [inConflict,clash,Bool.true_or]⟩
  · intro conflict found another listed
    exact sides_apart parser exempts rules listed found

-- A line gives way to one that stands further up.
def GivesWay (rules : List Text) (line other : Text × Nat) : Prop :=
  other ∈ rules.zipIdx ∧ other.2 < line.2 ∧ inConflict parser exempts line.1 other.1 = true

theorem removed_later (rules : List Text) (here : line ∈ rules.zipIdx) (gone : line.2 ∈ removed parser exempts .keepFirst rules) :
    ∃ other, GivesWay parser exempts rules line other := by
  obtain ⟨conflict,found,same⟩ := List.mem_map.mp gone
  obtain ⟨one,two,at_one,at_two,clash⟩ := conflict_pair parser exempts rules found
  have differs := sides_apart parser exempts rules found found
  unfold removedIndex at same
  dsimp only at same
  split at same
  · next before =>
    rw [same] at at_two before
    obtain rfl := place_line at_two here
    exact ⟨(one,conflict.blockingIndex),at_one,before,by rw [inConflict,clash,Bool.or_true]⟩
  · next after =>
    have further : conflict.allowingIndex < conflict.blockingIndex := by omega
    rw [same] at at_one further
    obtain rfl := place_line at_one here
    exact ⟨(two,conflict.allowingIndex),at_two,further,by rw [inConflict,clash,Bool.true_or]⟩

-- Going up, a line that stays is reached.
theorem removed_linked (rules : List Text) (line : Text × Nat) (here : line ∈ rules.zipIdx)
    (gone : line.2 ∈ removed parser exempts .keepFirst rules) :
    ∃ other ∈ rules.zipIdx, other.2 ∉ removed parser exempts .keepFirst rules ∧
      Relation.TransGen (GivesWay parser exempts rules) line other := by
  obtain ⟨other,way⟩ := removed_later parser exempts rules here gone
  by_cases again : other.2 ∈ removed parser exempts .keepFirst rules
  · have shorter : other.2 < line.2 := way.2.1
    obtain ⟨last,inside,stays,chain⟩ := removed_linked rules other way.1 again
    exact ⟨last,inside,stays,.head way chain⟩
  · exact ⟨other,way.1,again,.single way⟩
termination_by line.2

-- No conflict is left, and no line goes without one: against a line that stays
-- or, where the first is kept, against one further up, and so on to one that
-- stays.
theorem resolution_exact (strategy : ResolutionStrategy) (rules : List Text) :
    (executeSync parser exempts ⟨true,strategy⟩ rules).1 =
        (rules.zipIdx.filter fun line => line.2 ∉ removed parser exempts strategy rules).map Prod.fst ∧
      detect parser exempts (executeSync parser exempts ⟨true,strategy⟩ rules).1 = [] ∧
        ∀ line ∈ rules.zipIdx, line.2 ∈ removed parser exempts strategy rules →
          ∃ other ∈ rules.zipIdx, other.2 ∉ removed parser exempts strategy rules ∧
            match strategy with
            | .keepBlock | .keepAllow => inConflict parser exempts line.1 other.1 = true
            | .keepFirst => Relation.TransGen (GivesWay parser exempts rules) line other := by
  refine ⟨executeSync_removed parser exempts strategy rules,resolved_free parser exempts strategy rules,?_⟩
  intro line here gone
  cases strategy with
  | keepBlock => exact removed_allowing parser exempts rules here gone
  | keepAllow => exact removed_blocking parser exempts rules here gone
  | keepFirst => exact removed_linked parser exempts rules line here gone

-- The third line goes for the second, which goes for the first.
theorem removed_for_removed :
    ¬∀ line ∈ ["||a.com^".toList,"@@||x.a.com^".toList,"||x.a.com^".toList].zipIdx,
      line.2 ∈ removed basicParser (fun _ => false) .keepFirst ["||a.com^".toList,"@@||x.a.com^".toList,"||x.a.com^".toList] →
        ∃ other ∈ ["||a.com^".toList,"@@||x.a.com^".toList,"||x.a.com^".toList].zipIdx,
          other.2 ∉ removed basicParser (fun _ => false) .keepFirst ["||a.com^".toList,"@@||x.a.com^".toList,"||x.a.com^".toList] ∧
            inConflict basicParser (fun _ => false) line.1 other.1 = true := by
  decide +kernel

end Resolution

example : (detect basicParser (fun _ => false) ["||ads.com^".toList,"@@||x.ads.com^".toList]).map RuleConflict.domain =
    ["x.ads.com".toList] := by decide

end AdblockCompiler.Conflicts
