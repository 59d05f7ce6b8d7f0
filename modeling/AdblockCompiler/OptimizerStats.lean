import AdblockCompiler.Optimizer

namespace AdblockCompiler.Optimizer
open JsText Rules

-- The lines whose places are listed are as many as the places.
section Places
variable {places : List Nat}

theorem count_kept (lines : List α) (once : places.Nodup) (inside : ∀ i ∈ places, i < lines.length) :
    (lines.zipIdx.filter fun line => line.2 ∈ places).length = places.length := by
  have indices : ((lines.zipIdx.filter fun line => decide (line.2 ∈ places)).map Prod.snd) =
      (List.range' 0 lines.length).filter fun i => decide (i ∈ places) := by
    rw [← List.zipIdx_map_snd 0 lines,List.filter_map]
    rfl
  have perm : (List.range' 0 lines.length).filter (fun i => decide (i ∈ places)) |>.Perm places := by
    apply (List.perm_ext_iff_of_nodup (List.Nodup.filter _ List.nodup_range') once).mpr
    intro i
    simp only [List.mem_filter,List.mem_range'_1,decide_eq_true_eq]
    exact ⟨fun both => both.2,fun member => ⟨by have := inside i member; omega,member⟩⟩
  rw [← List.length_map (f := Prod.snd),indices]
  exact perm.length_eq

theorem count_left (lines : List α) (once : places.Nodup) (inside : ∀ i ∈ places, i < lines.length) :
    (lines.zipIdx.filter fun line => line.2 ∉ places).length + places.length = lines.length := by
  have both := List.length_eq_length_filter_add (l := lines.zipIdx) (fun line => decide (line.2 ∈ places))
  rw [count_kept lines once inside,List.length_zipIdx] at both
  simp only [decide_not]
  omega

theorem nodup_last {l : List α} (once : l.Nodup) (new : x ∉ l) : (l ++ [x]).Nodup := List.concat_eq_append ▸ once.concat new

end Places

-- meets says whether a count is at least mergeThreshold.
structure RuleOptimizerOptions where
  removeRedundant : Bool := true
  mergeRules : Bool := false
  simplifyModifiers : Bool := true
  optimizePatterns : Bool := true
  meets : Nat → Bool := fun count => 3 ≤ count

structure OptimizationStats where
  rulesOptimized : Nat
  redundantRemoved : Nat
  rulesMerged : Nat
  modifiersSimplified : Nat
  originalCount : Nat
  finalCount : Nat
  deriving DecidableEq, Repr

structure Group where
  pattern : Text
  domains : List Text
  indices : List Nat
  deriving DecidableEq, Repr

section Counters
variable (parser : RuleParser)

-- One for each hostname with a parent in the table: the loop over the parents
-- ends at the first.
def Scan.redundant (scan : Scan) : Nat := (scan.domainRules.filter fun entry => (parentDomains entry.1).any scan.has).length

def redundantRemoved (rules : List Text) : Nat := (rules.zipIdx.foldl (Scan.visit parser) {}).redundant

def patternChanges (rule : Text) : Nat :=
  let trimmed := trim rule
  if skipped trimmed then 0
  else
    let closed := slashToCaret trimmed
    let opened := dropLeadingStar closed
    (if endsInSlash trimmed then 1 else 0) + (if startsWith closed ['|','|','*'] then 1 else 0) +
      (if endsWith opened ['*','^'] then 1 else 0)

def typeNames : List Text := ["script","image","stylesheet","font","xmlhttprequest","media"].map String.toList

-- The modifiers that are there twice, and one where five types are negated.
def modifierChanges (rule : Text) : Nat :=
  let trimmed := trim rule
  if skipped trimmed then 0
  else if '$' ∉ trimmed then 0
  else
    match (loadAdblockRuleProperties parser trimmed).options with
    | none => 0
    | some options =>
      let uniqueOptions := firstOfKey optionText [] options
      let typeModifiers := uniqueOptions.filter fun opt => opt.name.erase '~' ∈ typeNames
      let negatedCount := (typeModifiers.filter fun opt => startsWith opt.name ['~']).length
      (options.length-uniqueOptions.length) + if negatedCount = 6-1 ∧ typeModifiers.length = negatedCount then 1 else 0

-- The pattern and the domains of a rule that may be merged.
def mergeKey (line : Text) : Option (Text × Text) :=
  let rule := trim line
  if skipped rule then none
  else
    let parsed := loadAdblockRuleProperties parser rule
    match (parsed.options.getD []).find? (·.name = "domain".toList) with
    | none => none
    | some domainOption =>
      let value := domainOption.value.getD []
      if parsed.pattern ≠ [] ∧ value ≠ [] then some (parsed.pattern,value) else none

def Group.push (group : Group) (domain : Text) (i : Nat) : Group :=
  { group with domains := group.domains ++ [domain], indices := group.indices ++ [i] }

def gather (groups : List Group) (line : Text × Nat) : List Group :=
  match mergeKey parser line.1 with
  | none => groups
  | some (pattern,domain) =>
    if groups.any (·.pattern = pattern) then
      groups.map fun group => if group.pattern = pattern then group.push domain line.2 else group
    else groups ++ [⟨pattern,[domain],[line.2]⟩]

-- The groups that meet the threshold.
def mergedGroups (meets : Nat → Bool) (rules : List Text) : List Group :=
  (rules.zipIdx.foldl (gather parser) []).filter fun group => meets group.domains.length

def mergedRule (group : Group) : Text := group.pattern ++ "$domain=".toList ++ ['|'].intercalate group.domains

def mergeSimilarRules (meets : Nat → Bool) (rules : List Text) : List Text :=
  let groups := mergedGroups parser meets rules
  let indicesToRemove := groups.flatMap (·.indices.tail)
  let mergedRules := groups.map fun group => (group.indices.headD 0,mergedRule group)
  let replaced := rules.zipIdx.map fun line => ((mergedRules.find? (·.1 = line.2)).elim line.1 Prod.snd)
  (replaced.zipIdx.filter fun line => line.2 ∉ indicesToRemove).map Prod.fst

def rulesMerged (meets : Nat → Bool) (rules : List Text) : Nat :=
  ((mergedGroups parser meets rules).map fun group => group.indices.length-1).sum

-- The rules, and the stats that the instance then holds.
def optimizeRules (options : RuleOptimizerOptions) (rules : List Text) : List Text × OptimizationStats :=
  let kept := if options.removeRedundant then removeRedundantRules parser rules else rules
  let optimized := if options.optimizePatterns then optimizePatterns kept else kept
  let simplified := if options.simplifyModifiers then simplifyModifiers parser optimized else optimized
  let result := if options.mergeRules then mergeSimilarRules parser options.meets simplified else simplified
  (result,
    { rulesOptimized := if options.optimizePatterns then (kept.map patternChanges).sum else 0
      redundantRemoved := if options.removeRedundant then redundantRemoved parser rules else 0
      rulesMerged := if options.mergeRules then rulesMerged parser options.meets simplified else 0
      modifiersSimplified := if options.simplifyModifiers then (optimized.map (modifierChanges parser)).sum else 0
      originalCount := rules.length
      finalCount := result.length })

theorem optimizeRules_default (rules : List Text) : (optimizeRules parser {} rules).1 = executeSync parser rules := rfl

end Counters

section Redundancy
variable (parser : RuleParser)

-- The hostname that a rule of the first pass is filed under.
def candidate (line : Text) : Option Text :=
  let rule := trim line
  if skipped rule || startsWith rule ['@','@'] then none
  else
    let parsed := loadAdblockRuleProperties parser rule
    parsed.hostname.bind fun hostname => if hostname ≠ [] ∧ parsed.options.getD [] = [] then some hostname else none

def candidates (rules : List Text) : List Text := rules.filterMap (candidate parser)

theorem visit_candidate (scan : Scan) (line : Text × Nat) :
    scan.visit parser line =
      match candidate parser line.1 with
      | none => scan.keep line.2
      | some hostname =>
        if scan.has hostname then scan else { scan with domainRules := scan.domainRules ++ [(hostname,line.2)] } := by
  unfold Scan.visit candidate
  dsimp only
  cases remark : skipped (trim line.1) with
  | true => rfl
  | false =>
    cases exception : startsWith (trim line.1) ['@','@'] with
    | true => rfl
    | false =>
      cases named : (loadAdblockRuleProperties parser (trim line.1)).hostname with
      | none => simp
      | some hostname =>
        by_cases plain : hostname ≠ [] ∧ (loadAdblockRuleProperties parser (trim line.1)).options.getD [] = []
        · simp [plain]
        · simp [plain]

-- Each line seen is kept for good or filed, the first of each hostname under
-- its place.
structure Accounted (seen : List Text) (scan : Scan) : Prop where
  lines : scan.keepIndices.length + (candidates parser seen).length = seen.length
  hosts : (scan.domainRules.map Prod.fst).Nodup
  listed : ∀ hostname, hostname ∈ scan.domainRules.map Prod.fst ↔ hostname ∈ candidates parser seen
  once : (scan.keepIndices ++ scan.domainRules.map Prod.snd).Nodup
  inside : ∀ i ∈ scan.keepIndices ++ scan.domainRules.map Prod.snd, i < seen.length

theorem scan_has (scan : Scan) (hostname : Text) : scan.has hostname = true ↔ hostname ∈ scan.domainRules.map Prod.fst := by
  simp [Scan.has]

-- The places so far are before the next line.
theorem accounted_next (accounted : Accounted parser seen scan) (line : Text) :
    seen.length ∉ scan.keepIndices ++ scan.domainRules.map Prod.snd ∧
      ∀ i ∈ scan.keepIndices ++ scan.domainRules.map Prod.snd, i < (seen ++ [line]).length := by
  refine ⟨fun member => Nat.lt_irrefl _ (accounted.inside _ member),?_⟩
  intro i member
  have := accounted.inside i member
  rw [List.length_append,List.length_singleton]
  omega

theorem accounted_keep (accounted : Accounted parser seen scan) (own : candidate parser line = none) :
    Accounted parser (seen ++ [line]) (scan.keep seen.length) := by
  obtain ⟨next,further⟩ := accounted_next parser accounted line
  obtain ⟨lines,hosts,listed,once,-⟩ := accounted
  have other : candidates parser (seen ++ [line]) = candidates parser seen := by simp [candidates,own]
  have moved : (scan.keepIndices ++ [seen.length] ++ scan.domainRules.map Prod.snd).Perm
      (seen.length :: (scan.keepIndices ++ scan.domainRules.map Prod.snd)) := by
    rw [List.append_assoc,List.singleton_append]
    exact List.perm_middle
  refine ⟨?_,hosts,?_,moved.nodup_iff.mpr (List.nodup_cons.mpr ⟨next,once⟩),?_⟩
  · simp only [Scan.keep,other,List.length_append,List.length_singleton]
    omega
  · rw [other]
    exact listed
  · intro i member
    rcases List.mem_cons.mp (moved.mem_iff.mp member) with rfl | old
    · simp
    · exact further i old

theorem candidates_more (seen : List Text) (own : candidate parser line = some hostname) :
    candidates parser (seen ++ [line]) = candidates parser seen ++ [hostname] := by simp [candidates,own]

theorem accounted_lines (accounted : Accounted parser seen scan) (own : candidate parser line = some hostname) :
    scan.keepIndices.length + (candidates parser (seen ++ [line])).length = (seen ++ [line]).length := by
  rw [candidates_more parser seen own,List.length_append,List.length_append,← accounted.lines]
  exact (Nat.add_assoc _ _ _).symm

theorem accounted_repeated (accounted : Accounted parser seen scan) (own : candidate parser line = some hostname)
    (known : hostname ∈ scan.domainRules.map Prod.fst) : Accounted parser (seen ++ [line]) scan := by
  obtain ⟨-,further⟩ := accounted_next parser accounted line
  have count := accounted_lines parser accounted own
  obtain ⟨-,hosts,listed,once,-⟩ := accounted
  refine ⟨count,hosts,?_,once,further⟩
  intro other
  rw [candidates_more parser seen own,listed,List.mem_append,List.mem_singleton]
  constructor
  · exact Or.inl
  · rintro (old | rfl)
    · exact old
    · exact (listed other).mp known

theorem accounted_filed (accounted : Accounted parser seen scan) (own : candidate parser line = some hostname)
    (new : hostname ∉ scan.domainRules.map Prod.fst) :
    Accounted parser (seen ++ [line]) { scan with domainRules := scan.domainRules ++ [(hostname,seen.length)] } := by
  obtain ⟨next,further⟩ := accounted_next parser accounted line
  have count := accounted_lines parser accounted own
  obtain ⟨-,hosts,listed,once,-⟩ := accounted
  have moved : (scan.keepIndices ++ (scan.domainRules ++ [(hostname,seen.length)]).map Prod.snd) =
      scan.keepIndices ++ scan.domainRules.map Prod.snd ++ [seen.length] := by simp
  refine ⟨count,?_,?_,?_,?_⟩
  · rw [List.map_append]
    exact nodup_last hosts new
  · intro other
    rw [candidates_more parser seen own,List.map_append,List.mem_append,listed,List.mem_append]
    rfl
  · rw [moved]
    exact nodup_last once next
  · intro i member
    rw [moved] at member
    rcases List.mem_append.mp member with old | last
    · exact further i old
    · rw [List.mem_singleton.mp last]
      simp

theorem accounted_step (accounted : Accounted parser seen scan) (line : Text) :
    Accounted parser (seen ++ [line]) (scan.visit parser (line,seen.length)) := by
  rw [visit_candidate]
  cases own : candidate parser line with
  | none => exact accounted_keep parser accounted own
  | some hostname =>
    dsimp only
    split
    · next known => exact accounted_repeated parser accounted own ((scan_has scan hostname).mp known)
    · next new => exact accounted_filed parser accounted own fun member => new ((scan_has scan hostname).mpr member)

theorem accounted_run (rules : List Text) : Accounted parser rules (rules.zipIdx.foldl (Scan.visit parser) {}) := by
  induction rules using List.reverseRecOn with
  | nil => exact ⟨rfl,List.nodup_nil,fun _ => Iff.rfl,List.nodup_nil,fun _ none => nomatch none⟩
  | append_singleton seen line ih =>
    rw [List.zipIdx_append,List.foldl_append]
    simpa using accounted_step parser ih line

-- What the first pass keeps, what its counter counts, and the lines that repeat
-- a hostname.
theorem redundant_count (rules : List Text) :
    rules.length = (removeRedundantRules parser rules).length + redundantRemoved parser rules +
      ((candidates parser rules).length-(candidates parser rules).dedup.length) := by
  have accounted := accounted_run parser rules
  unfold removeRedundantRules redundantRemoved
  generalize rules.zipIdx.foldl (Scan.visit parser) {} = scan at accounted ⊢
  obtain ⟨lines,hosts,listed,once,inside⟩ := accounted
  have sub : scan.finish.Sublist (scan.keepIndices ++ scan.domainRules.map Prod.snd) :=
    (List.Sublist.refl _).append (List.filter_sublist.map Prod.snd)
  have kept := count_kept rules (once.sublist sub) (fun i member => inside i (sub.subset member))
  have split := List.length_eq_length_filter_add (l := scan.domainRules) (fun entry => (parentDomains entry.1).any scan.has)
  have distinct : scan.domainRules.length = (candidates parser rules).dedup.length := by
    rw [← List.length_map (f := Prod.fst)]
    apply List.Perm.length_eq
    apply (List.perm_ext_iff_of_nodup hosts (List.nodup_dedup _)).mpr
    intro hostname
    rw [listed,List.mem_dedup]
  have fewer := (List.dedup_sublist (candidates parser rules)).length_le
  rw [List.length_map,kept,Scan.finish,List.length_append,List.length_map,Scan.redundant]
  omega

theorem repeated_none (lines : List Text) : lines.length-lines.dedup.length = 0 ↔ lines.Nodup := by
  have fewer := List.dedup_sublist lines
  rw [← List.dedup_eq_self]
  constructor
  · intro none
    have shorter := fewer.length_le
    exact fewer.eq_of_length (by omega)
  · intro same
    rw [same,Nat.sub_self]

end Redundancy

section Merging
variable (parser : RuleParser)

-- Each line is in one group at most, that of its pattern, and there once.
structure Gathered (seen : List Text) (groups : List Group) : Prop where
  patterns : (groups.map Group.pattern).Nodup
  own : ∀ group ∈ groups, ∀ i ∈ group.indices, ∃ line, seen[i]? = some line ∧ (mergeKey parser line).map Prod.fst = some group.pattern
  once : ∀ group ∈ groups, group.indices.Nodup

theorem gathered_later (gathered : Gathered parser seen groups) (line : Text) : Gathered parser (seen ++ [line]) groups := by
  obtain ⟨patterns,own,once⟩ := gathered
  refine ⟨patterns,?_,once⟩
  intro group member i inside
  obtain ⟨old,place,key⟩ := own group member i inside
  exact ⟨old,List.getElem?_append_left (List.getElem?_eq_some_iff.mp place).1 ▸ place,key⟩

theorem gathered_push (gathered : Gathered parser seen groups) (here : (mergeKey parser line).map Prod.fst = some pattern) (domain : Text) :
    Gathered parser (seen ++ [line]) (groups.map fun group => if group.pattern = pattern then group.push domain seen.length else group) := by
  have later := gathered_later parser gathered line
  have same : (groups.map fun group => if group.pattern = pattern then group.push domain seen.length else group).map Group.pattern =
      groups.map Group.pattern := by
    rw [List.map_map]
    apply List.map_congr_left
    intro group _
    dsimp only [Function.comp]
    split <;> rfl
  refine ⟨same ▸ later.patterns,?_,?_⟩
  · intro group member i inside
    obtain ⟨old,there,rfl⟩ := List.mem_map.mp member
    by_cases named : old.pattern = pattern
    · rw [if_pos named] at inside ⊢
      rcases List.mem_append.mp inside with before | new
      · exact later.own old there i before
      · rw [List.mem_singleton.mp new]
        exact ⟨line,List.getElem?_concat_length,here.trans (congrArg some named.symm)⟩
    · rw [if_neg named] at inside ⊢
      exact later.own old there i inside
  · intro group member
    obtain ⟨old,there,rfl⟩ := List.mem_map.mp member
    split
    · have new : seen.length ∉ old.indices := by
        intro inside
        obtain ⟨_,place,-⟩ := gathered.own old there _ inside
        exact absurd (List.getElem?_eq_some_iff.mp place).1 (Nat.lt_irrefl _)
      exact nodup_last (later.once old there) new
    · exact later.once old there

theorem gathered_new (gathered : Gathered parser seen groups) (here : (mergeKey parser line).map Prod.fst = some pattern) (domain : Text)
    (new : pattern ∉ groups.map Group.pattern) : Gathered parser (seen ++ [line]) (groups ++ [⟨pattern,[domain],[seen.length]⟩]) := by
  have later := gathered_later parser gathered line
  refine ⟨?_,?_,?_⟩
  · rw [List.map_append]
    exact nodup_last later.patterns new
  · intro group member i inside
    rcases List.mem_append.mp member with old | single
    · exact later.own group old i inside
    · rw [List.mem_singleton.mp single] at inside ⊢
      rw [List.mem_singleton.mp inside]
      exact ⟨line,List.getElem?_concat_length,here⟩
  · intro group member
    rcases List.mem_append.mp member with old | single
    · exact later.once group old
    · rw [List.mem_singleton.mp single]
      exact List.nodup_singleton _

theorem gathered_step (gathered : Gathered parser seen groups) (line : Text) :
    Gathered parser (seen ++ [line]) (gather parser groups (line,seen.length)) := by
  unfold gather
  cases key : mergeKey parser line with
  | none => exact gathered_later parser gathered line
  | some found =>
    obtain ⟨pattern,domain⟩ := found
    have here : (mergeKey parser line).map Prod.fst = some pattern := by rw [key]; rfl
    dsimp only
    split
    · exact gathered_push parser gathered here domain
    · next fresh =>
      apply gathered_new parser gathered here domain
      intro member
      obtain ⟨group,there,same⟩ := List.mem_map.mp member
      exact fresh (List.any_eq_true.mpr ⟨group,there,decide_eq_true same⟩)

theorem gathered_run (rules : List Text) : Gathered parser rules (rules.zipIdx.foldl (gather parser) []) := by
  induction rules using List.reverseRecOn with
  | nil => exact ⟨List.nodup_nil,by simp,by simp⟩
  | append_singleton seen line ih =>
    rw [List.zipIdx_append,List.foldl_append]
    simpa using gathered_step parser ih line

theorem merged_once (meets : Nat → Bool) (rules : List Text) :
    ((mergedGroups parser meets rules).flatMap fun group => group.indices.tail).Nodup := by
  obtain ⟨patterns,own,once⟩ := gathered_run parser rules
  rw [List.nodup_flatMap]
  refine ⟨fun group member => (once group (List.mem_filter.mp member).1).tail,?_⟩
  have apart := (List.pairwise_map.mp patterns).sublist (List.filter_sublist (p := fun group : Group => meets group.domains.length))
  apply apart.imp_of_mem
  intro one two left right differ i first second
  obtain ⟨line,place,key⟩ := own one (List.mem_filter.mp left).1 i (List.mem_of_mem_tail first)
  obtain ⟨other,at_i,name⟩ := own two (List.mem_filter.mp right).1 i (List.mem_of_mem_tail second)
  obtain rfl := Option.some.inj (place.symm.trans at_i)
  exact differ (Option.some.inj (key.symm.trans name))

-- Each merged group leaves one line of its own.
theorem merged_count (meets : Nat → Bool) (rules : List Text) :
    rules.length = (mergeSimilarRules parser meets rules).length + rulesMerged parser meets rules := by
  have once := merged_once parser meets rules
  have inside : ∀ i ∈ (mergedGroups parser meets rules).flatMap (fun group => group.indices.tail), i < rules.length := by
    intro i member
    obtain ⟨group,there,behind⟩ := List.mem_flatMap.mp member
    obtain ⟨line,place,-⟩ := (gathered_run parser rules).own group (List.mem_filter.mp there).1 i (List.mem_of_mem_tail behind)
    exact (List.getElem?_eq_some_iff.mp place).1
  have count : rulesMerged parser meets rules = ((mergedGroups parser meets rules).flatMap fun group => group.indices.tail).length := by
    rw [rulesMerged,List.length_flatMap]
    simp
  have same (lines : List Text) (size : lines.length = rules.length) :=
    count_left lines once (fun i member => size ▸ inside i member)
  unfold mergeSimilarRules
  dsimp only
  rw [List.length_map,count,same _ (by simp)]
  simp

end Merging

section Stats
variable (parser : RuleParser)

-- Every line is in the list, counted, or the repetition of a hostname.
theorem stats_count (options : RuleOptimizerOptions) (rules : List Text) :
    (optimizeRules parser options rules).2.originalCount = (optimizeRules parser options rules).2.finalCount +
      (optimizeRules parser options rules).2.redundantRemoved + (optimizeRules parser options rules).2.rulesMerged +
        if options.removeRedundant then (candidates parser rules).length-(candidates parser rules).dedup.length else 0 := by
  have removing : rules.length = (if options.removeRedundant then removeRedundantRules parser rules else rules).length +
      (if options.removeRedundant then redundantRemoved parser rules else 0) +
        if options.removeRedundant then (candidates parser rules).length-(candidates parser rules).dedup.length else 0 := by
    cases options.removeRedundant with
    | true => exact redundant_count parser rules
    | false => rfl
  have optimizing (lines : List Text) : (if options.optimizePatterns then optimizePatterns lines else lines).length = lines.length := by
    cases options.optimizePatterns with
    | true => exact List.length_map _
    | false => rfl
  have simplifying (lines : List Text) :
      (if options.simplifyModifiers then simplifyModifiers parser lines else lines).length = lines.length := by
    cases options.simplifyModifiers with
    | true => exact List.length_map _
    | false => rfl
  have merging (lines : List Text) :
      lines.length = (if options.mergeRules then mergeSimilarRules parser options.meets lines else lines).length +
        if options.mergeRules then rulesMerged parser options.meets lines else 0 := by
    cases options.mergeRules with
    | true => exact merged_count parser options.meets lines
    | false => rfl
  unfold optimizeRules
  dsimp only
  generalize (if options.removeRedundant then removeRedundantRules parser rules else rules) = kept at removing ⊢
  have same := (simplifying _).trans (optimizing kept)
  have merged := merging (if options.simplifyModifiers then
    simplifyModifiers parser (if options.optimizePatterns then optimizePatterns kept else kept)
    else if options.optimizePatterns then optimizePatterns kept else kept)
  omega

-- The counters account for every line that goes exactly where redundant rules
-- stay, or no hostname is listed by two rules.
theorem stats_exact (options : RuleOptimizerOptions) (rules : List Text) :
    ((optimizeRules parser options rules).2.originalCount - (optimizeRules parser options rules).2.finalCount : Int) =
        (optimizeRules parser options rules).2.redundantRemoved + (optimizeRules parser options rules).2.rulesMerged ∧
      (optimizeRules parser options rules).2.finalCount = (optimizeRules parser options rules).1.length ↔
    (options.removeRedundant = true → (candidates parser rules).Nodup) := by
  have count := stats_count parser options rules
  have returned : (optimizeRules parser options rules).2.finalCount = (optimizeRules parser options rules).1.length := rfl
  rw [← repeated_none,and_iff_left returned]
  cases removes : options.removeRedundant with
  | true =>
    simp only [removes,if_true] at count
    simp only [forall_const]
    omega
  | false =>
    simp only [removes,Bool.false_eq_true,if_false] at count
    simp only [Bool.false_eq_true,false_imp_iff,iff_true]
    omega

-- The second rule of a hostname goes uncounted.
theorem repeated_uncounted :
    ¬((optimizeRules basicParser {} ["||a.com^".toList,"||a.com^".toList]).2.originalCount -
          (optimizeRules basicParser {} ["||a.com^".toList,"||a.com^".toList]).2.finalCount : Int) =
        (optimizeRules basicParser {} ["||a.com^".toList,"||a.com^".toList]).2.redundantRemoved +
          (optimizeRules basicParser {} ["||a.com^".toList,"||a.com^".toList]).2.rulesMerged := by
  decide +kernel

end Stats

end AdblockCompiler.Optimizer
