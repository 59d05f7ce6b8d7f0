import AdblockCompiler.Optimizer

-- mergeSimilarRules of the optimizer, and what becomes of the requests that a
-- list decides.
namespace AdblockCompiler.Merging
open JsText Rules Optimizer

structure RuleOptimizerOptions where
  removeRedundant : Bool := true
  mergeRules : Bool := false
  simplifyModifiers : Bool := true
  optimizePatterns : Bool := true
  mergeThreshold : Nat := 3

structure Group where
  pattern : Text
  domains : List Text
  indices : List Nat
  deriving DecidableEq, Repr

def Group.rule (group : Group) : Text := group.pattern ++ "$domain=".toList ++ ['|'].intercalate group.domains

section Transformation
variable (parser : RuleParser)

-- The pattern and the domains under which a rule is grouped.
def mergeKey (line : Text) : Option (Text × Text) :=
  let rule := trim line
  if skipped rule then none
  else
    let parsed := loadAdblockRuleProperties parser rule
    let domainOption := (parsed.options.getD []).find? (·.name = "domain".toList)
    match domainOption.bind (·.value) with
    | none => none
    | some value => if parsed.pattern ≠ [] ∧ value ≠ [] then some (parsed.pattern,value) else none

def visit (groups : List Group) (entry : Text × Nat) : List Group :=
  match mergeKey parser entry.1 with
  | none => groups
  | some (patternKey,value) =>
    if groups.any (·.pattern = patternKey) then
      groups.map fun group =>
        if group.pattern = patternKey then ⟨group.pattern,group.domains ++ [value],group.indices ++ [entry.2]⟩ else group
    else groups ++ [⟨patternKey,[value],[entry.2]⟩]

def mergeSimilarRules (mergeThreshold : Nat) (rules : List Text) : List Text :=
  let groups := rules.zipIdx.foldl (visit parser) []
  let large := groups.filter fun group => group.domains.length ≥ mergeThreshold
  let indicesToRemove := large.flatMap fun group => group.indices.tail
  let mergedRules := large.map fun group => (group.indices.headD 0,group.rule)
  (rules.zipIdx.filter fun entry => entry.2 ∉ indicesToRemove).map fun entry =>
    match mergedRules.find? (·.1 = entry.2) with
    | some merged => merged.2
    | none => entry.1

def executeSync (options : RuleOptimizerOptions) (rules : List Text) : List Text :=
  let result := if options.removeRedundant then removeRedundantRules parser rules else rules
  let result := if options.optimizePatterns then Optimizer.optimizePatterns result else result
  let result := if options.simplifyModifiers then Optimizer.simplifyModifiers parser result else result
  if options.mergeRules then mergeSimilarRules parser options.mergeThreshold result else result

theorem executeSync_default (rules : List Text) : executeSync parser {} rules = Optimizer.executeSync parser rules := rfl

def mergeOnly (mergeThreshold : Nat) : RuleOptimizerOptions :=
  { removeRedundant := false, mergeRules := true, simplifyModifiers := false, optimizePatterns := false, mergeThreshold }

theorem executeSync_mergeOnly (mergeThreshold : Nat) (rules : List Text) :
    executeSync parser (mergeOnly mergeThreshold) rules = mergeSimilarRules parser mergeThreshold rules := rfl

end Transformation

-- What patterns, pages and the other modifiers mean, and the lines that are no
-- network rules.
structure Meaning (Request : Type) where
  hits : Text → Request → Prop
  onPage : Text → Text → Prop
  allows : Modifier → Request → Text → Prop
  elsewhere : Text → Request → Text → Prop

def entries (value : Text) : List Text := value.splitOn '|'
def negated (entry : Text) : Bool := startsWith entry ['~']

section Deciding
variable {Request : Type} (meaning : Meaning Request) (parser : RuleParser)

-- d1|d2|~d3: on the pages of d1 and d2, but not of d3; on all pages where only
-- such exceptions are listed.
def Meaning.OnPages (domains : List Text) (source : Text) : Prop :=
  ((∀ d ∈ domains, negated d = true) ∨ ∃ d ∈ domains, negated d = false ∧ meaning.onPage d source) ∧
    ∀ d ∈ domains, negated d = true → ¬meaning.onPage d.tail source

def Meaning.Holds (modifier : Modifier) (request : Request) (source : Text) : Prop :=
  if modifier.name = "domain".toList ∧ modifier.exception = false ∧ modifier.value.getD [] ≠ [] then
    meaning.OnPages (entries (modifier.value.getD [])) source
  else meaning.allows modifier request source

def Meaning.Applies (rule : NetworkRule) (request : Request) (source : Text) : Prop :=
  meaning.hits rule.pattern request ∧ ∀ modifier ∈ rule.modifiers, meaning.Holds modifier request source

def Meaning.Blocks (line : Text) (request : Request) (source : Text) : Prop :=
  match AGTreeParser.parse parser line with
  | some (.network rule) => rule.exception = false ∧ meaning.Applies rule request source
  | _ => meaning.elsewhere line request source

def Meaning.Exempts (line : Text) (request : Request) (source : Text) : Prop :=
  match AGTreeParser.parse parser line with
  | some (.network rule) => rule.exception = true ∧ meaning.Applies rule request source
  | _ => False

-- An exception overrides what blocks.
def Meaning.Decides (rules : List Text) (request : Request) (source : Text) : Prop :=
  (∃ line ∈ rules, meaning.Blocks parser line request source) ∧
    ¬∃ line ∈ rules, meaning.Exempts parser line request source

end Deciding

section Grouping
variable (parser : RuleParser)

def groupedBy (pattern line : Text) : Bool := (mergeKey parser line).any (·.1 = pattern)

def values (pattern : Text) (rules : List Text) : List Text :=
  rules.filterMap fun line => (mergeKey parser line).bind fun key => if key.1 = pattern then some key.2 else none

def positions (pattern : Text) (rules : List Text) : List Nat :=
  (rules.zipIdx.filter fun entry => groupedBy parser pattern entry.1).map Prod.snd

-- After some rules there is one group for each pattern, with the rules of it.
structure Grouped (seen : List Text) (groups : List Group) : Prop where
  once : (groups.map Group.pattern).Nodup
  whole : ∀ group ∈ groups, group.domains = values parser group.pattern seen ∧
    group.indices = positions parser group.pattern seen ∧ group.indices ≠ []
  all : ∀ line ∈ seen, ∀ pattern, groupedBy parser pattern line = true → pattern ∈ groups.map Group.pattern

theorem values_concat (pattern line : Text) (seen : List Text) :
    values parser pattern (seen ++ [line]) = values parser pattern seen ++
      (((mergeKey parser line).bind fun key => if key.1 = pattern then some key.2 else none).toList) := by
  rw [values,values,List.filterMap_append,List.filterMap_cons,List.filterMap_nil]
  cases (mergeKey parser line).bind fun key => if key.1 = pattern then some key.2 else none <;> rfl

theorem positions_concat (pattern line : Text) (seen : List Text) :
    positions parser pattern (seen ++ [line]) =
      positions parser pattern seen ++ if groupedBy parser pattern line then [seen.length] else [] := by
  rw [positions,positions,List.zipIdx_append,List.filter_append,List.map_append]
  cases own : groupedBy parser pattern line <;> simp [own]

theorem grouped_other (key : mergeKey parser line = none) (pattern : Text) (seen : List Text) :
    values parser pattern (seen ++ [line]) = values parser pattern seen ∧
      positions parser pattern (seen ++ [line]) = positions parser pattern seen := by
  rw [values_concat,positions_concat,groupedBy,key]
  exact ⟨List.append_nil _,List.append_nil _⟩

theorem grouped_apart (key : mergeKey parser line = some (own,value)) (differs : own ≠ pattern) (seen : List Text) :
    values parser pattern (seen ++ [line]) = values parser pattern seen ∧
      positions parser pattern (seen ++ [line]) = positions parser pattern seen := by
  rw [values_concat,positions_concat,groupedBy,key]
  simp [differs]

theorem grouped_own (key : mergeKey parser line = some (own,value)) (seen : List Text) :
    values parser own (seen ++ [line]) = values parser own seen ++ [value] ∧
      positions parser own (seen ++ [line]) = positions parser own seen ++ [seen.length] := by
  rw [values_concat,positions_concat,groupedBy,key]
  simp

theorem grouped_key (key : mergeKey parser line = some (own,value)) : groupedBy parser pattern line = true ↔ pattern = own := by
  rw [groupedBy,key,Option.any_some,decide_eq_true_eq]
  exact eq_comm

theorem grouped_empty (absent : ∀ line ∈ seen, groupedBy parser pattern line = false) :
    values parser pattern seen = [] ∧ positions parser pattern seen = [] := by
  constructor
  · apply List.filterMap_eq_nil_iff.mpr
    intro line member
    have none_ := absent line member
    rw [groupedBy] at none_
    cases key : mergeKey parser line with
    | none => rfl
    | some pair =>
      rw [key,Option.any_some] at none_
      exact if_neg (of_decide_eq_false none_)
  · rw [positions,List.map_eq_nil_iff,List.filter_eq_nil_iff]
    rintro ⟨line,i⟩ member
    rw [absent line (List.fst_mem_of_mem_zipIdx member)]
    exact Bool.false_ne_true

theorem grouped_skip {groups : List Group} (grouped : Grouped parser seen groups) (key : mergeKey parser line = none) :
    Grouped parser (seen ++ [line]) groups := by
  refine ⟨grouped.once,?_,?_⟩
  · intro group member
    obtain ⟨values_,positions_⟩ := grouped_other parser key group.pattern seen
    rw [values_,positions_]
    exact grouped.whole group member
  · intro other member pattern by_
    rcases List.mem_append.mp member with old | new
    · exact grouped.all other old pattern by_
    · rw [List.mem_singleton.mp new,groupedBy,key] at by_
      cases by_

-- The pattern of one more rule is among those of the groups.
theorem grouped_all {groups : List Group} {patterns : List Text} (grouped : Grouped parser seen groups) (key : mergeKey parser line = some (own,value))
    (kept : ∀ pattern ∈ groups.map Group.pattern, pattern ∈ patterns) (present : own ∈ patterns) :
    ∀ other ∈ seen ++ [line], ∀ pattern, groupedBy parser pattern other = true → pattern ∈ patterns := by
  intro other member pattern by_
  rcases List.mem_append.mp member with old | new
  · exact kept pattern (grouped.all other old pattern by_)
  · rw [List.mem_singleton.mp new,grouped_key parser key] at by_
    exact by_ ▸ present

theorem grouped_join {groups : List Group} (grouped : Grouped parser seen groups) (key : mergeKey parser line = some (own,value))
    (present : own ∈ groups.map Group.pattern) :
    Grouped parser (seen ++ [line]) (groups.map fun group =>
      if group.pattern = own then ⟨group.pattern,group.domains ++ [value],group.indices ++ [seen.length]⟩ else group) := by
  obtain ⟨ownValues,ownPositions⟩ := grouped_own parser key seen
  have kept : (groups.map fun group => if group.pattern = own then
      ⟨group.pattern,group.domains ++ [value],group.indices ++ [seen.length]⟩ else group).map Group.pattern =
        groups.map Group.pattern := by
    rw [List.map_map]
    apply List.map_congr_left
    intro group _
    rw [Function.comp_apply]
    split <;> rfl
  refine ⟨kept.symm ▸ grouped.once,?_,?_⟩
  · intro after member
    obtain ⟨group,inside,rfl⟩ := List.mem_map.mp member
    obtain ⟨domains,indices,nonempty⟩ := grouped.whole group inside
    split
    · next same =>
      rw [same] at domains indices
      refine ⟨?_,?_,by simp⟩
      · show group.domains ++ [value] = values parser group.pattern (seen ++ [line])
        rw [same,ownValues,domains]
      · show group.indices ++ [seen.length] = positions parser group.pattern (seen ++ [line])
        rw [same,ownPositions,indices]
    · next differs =>
      obtain ⟨values_,positions_⟩ := grouped_apart parser key (Ne.symm differs) seen
      rw [values_,positions_]
      exact ⟨domains,indices,nonempty⟩
  · rw [kept]
    exact grouped_all parser grouped key (fun _ member => member) present

theorem grouped_new {groups : List Group} (grouped : Grouped parser seen groups) (key : mergeKey parser line = some (own,value))
    (fresh : own ∉ groups.map Group.pattern) : Grouped parser (seen ++ [line]) (groups ++ [⟨own,[value],[seen.length]⟩]) := by
  obtain ⟨ownValues,ownPositions⟩ := grouped_own parser key seen
  have none_ : ∀ other ∈ seen, groupedBy parser own other = false := by
    intro other member
    rw [Bool.eq_false_iff]
    exact fun by_ => fresh (grouped.all other member own by_)
  obtain ⟨noValues,noPositions⟩ := grouped_empty parser none_
  have patterns : (groups ++ [Group.mk own [value] [seen.length]]).map Group.pattern = groups.map Group.pattern ++ [own] := by
    rw [List.map_append,List.map_singleton]
  refine ⟨?_,?_,?_⟩
  · rw [patterns]
    refine List.nodup_append.mpr ⟨grouped.once,List.nodup_singleton own,?_⟩
    intro one kept other single same
    rw [List.mem_singleton] at single
    subst single
    exact fresh (same ▸ kept)
  · intro group member
    rcases List.mem_append.mp member with old | new
    · have differs : own ≠ group.pattern := fun same => fresh (same ▸ List.mem_map_of_mem old)
      obtain ⟨values_,positions_⟩ := grouped_apart parser key differs seen
      rw [values_,positions_]
      exact grouped.whole group old
    · rw [List.mem_singleton.mp new]
      refine ⟨?_,?_,List.cons_ne_nil _ _⟩
      · rw [ownValues,noValues,List.nil_append]
      · rw [ownPositions,noPositions,List.nil_append]
  · rw [patterns]
    apply grouped_all parser grouped key
    · exact fun _ member => List.mem_append_left _ member
    · exact List.mem_append_right _ List.mem_cons_self

theorem grouped_step {groups : List Group} (grouped : Grouped parser seen groups) (line : Text) :
    Grouped parser (seen ++ [line]) (visit parser groups (line,seen.length)) := by
  rw [visit]
  cases key : mergeKey parser line with
  | none => exact grouped_skip parser grouped key
  | some pair =>
    have known : groups.any (·.pattern = pair.1) = true ↔ pair.1 ∈ groups.map Group.pattern := by
      simp [List.any_eq_true]
    simp only
    split
    · next present => exact grouped_join parser grouped key (known.mp present)
    · next absent => exact grouped_new parser grouped key fun member => absent (known.mpr member)

theorem grouped_run (rules : List Text) : Grouped parser rules (rules.zipIdx.foldl (visit parser) []) := by
  induction rules using List.reverseRecOn with
  | nil => exact ⟨List.nodup_nil,by simp,by simp⟩
  | append_singleton seen line ih =>
    have step := grouped_step parser ih line
    rw [List.zipIdx_append,List.foldl_append]
    simpa using step

-- A pattern that enough rules are grouped by, and the rules it takes.
def Large (mergeThreshold : Nat) (rules : List Text) (pattern : Text) : Prop :=
  values parser pattern rules ≠ [] ∧ mergeThreshold ≤ (values parser pattern rules).length

def Taken (mergeThreshold : Nat) (rules : List Text) (line : Text) : Prop :=
  ∃ pattern, groupedBy parser pattern line = true ∧ Large parser mergeThreshold rules pattern

def mergedRule (rules : List Text) (pattern : Text) : Text :=
  pattern ++ "$domain=".toList ++ ['|'].intercalate (values parser pattern rules)

theorem mem_positions : i ∈ positions parser pattern rules ↔ ∃ line, rules[i]? = some line ∧ groupedBy parser pattern line = true := by
  rw [positions,List.mem_map]
  constructor
  · rintro ⟨⟨line,j⟩,member,rfl⟩
    obtain ⟨inside,by_⟩ := List.mem_filter.mp member
    exact ⟨line,List.mem_zipIdx_iff_getElem?.mp inside,by_⟩
  · rintro ⟨line,here,by_⟩
    exact ⟨(line,i),List.mem_filter.mpr ⟨List.mem_zipIdx_iff_getElem?.mpr here,by_⟩,rfl⟩

theorem positions_once (pattern : Text) (rules : List Text) : (positions parser pattern rules).Nodup := by
  have kept : (positions parser pattern rules).Sublist (rules.zipIdx.map Prod.snd) := List.filter_sublist.map Prod.snd
  rw [List.zipIdx_map_snd] at kept
  exact List.Nodup.sublist kept List.nodup_range'

theorem grouped_exact : groupedBy parser pattern line = true ↔ ∃ value, mergeKey parser line = some (pattern,value) := by
  rw [groupedBy,Option.any_eq_true]
  constructor
  · rintro ⟨⟨own,value⟩,key,same⟩
    exact ⟨value,of_decide_eq_true same ▸ key⟩
  · rintro ⟨value,key⟩
    exact ⟨_,key,decide_eq_true rfl⟩

theorem grouped_once (one : groupedBy parser pattern line = true) (two : groupedBy parser other line = true) : pattern = other := by
  obtain ⟨value,key⟩ := (grouped_exact parser).mp one
  exact ((grouped_key parser key).mp two).symm

theorem values_some (by_ : groupedBy parser pattern line = true) (member : line ∈ rules) : values parser pattern rules ≠ [] := by
  obtain ⟨value,key⟩ := (grouped_exact parser).mp by_
  have found : value ∈ values parser pattern rules := by
    refine List.mem_filterMap.mpr ⟨line,member,?_⟩
    rw [key]
    exact if_pos rfl
  exact List.ne_nil_of_mem found

theorem values_none (none_ : values parser pattern rules ≠ []) : ∃ line ∈ rules, groupedBy parser pattern line = true := by
  by_contra absent
  apply none_
  refine (grouped_empty parser fun line member => ?_).1
  rw [Bool.eq_false_iff]
  exact fun by_ => absent ⟨line,member,by_⟩

def largeGroups (mergeThreshold : Nat) (rules : List Text) : List Group :=
  (rules.zipIdx.foldl (visit parser) []).filter fun group => group.domains.length ≥ mergeThreshold

theorem large_sound (member : group ∈ largeGroups parser mergeThreshold rules) :
    Large parser mergeThreshold rules group.pattern ∧ group.rule = mergedRule parser rules group.pattern ∧
      group.indices = positions parser group.pattern rules ∧ group.indices ≠ [] := by
  obtain ⟨known,size⟩ := List.mem_filter.mp member
  obtain ⟨domains,indices,nonempty⟩ := (grouped_run parser rules).whole group known
  obtain ⟨i,index⟩ := List.exists_mem_of_ne_nil _ nonempty
  obtain ⟨line,here,by_⟩ := (mem_positions parser).mp (indices ▸ index)
  have enough : mergeThreshold ≤ (values parser group.pattern rules).length := domains ▸ of_decide_eq_true size
  refine ⟨⟨values_some parser by_ (List.mem_of_getElem? here),enough⟩,?_,indices,nonempty⟩
  rw [Group.rule,domains]
  rfl

theorem large_complete (enough : Large parser mergeThreshold rules pattern) :
    ∃ group ∈ largeGroups parser mergeThreshold rules, group.pattern = pattern := by
  obtain ⟨-,whole,all⟩ := grouped_run parser rules
  obtain ⟨line,member,by_⟩ := values_none parser enough.1
  obtain ⟨group,known,rfl⟩ := List.mem_map.mp (all line member pattern by_)
  have size : mergeThreshold ≤ group.domains.length := (whole group known).1 ▸ enough.2
  exact ⟨group,List.mem_filter.mpr ⟨known,decide_eq_true size⟩,rfl⟩

theorem mem_indices (member : group ∈ largeGroups parser mergeThreshold rules) :
    i ∈ group.indices ↔ ∃ line, rules[i]? = some line ∧ groupedBy parser group.pattern line = true := by
  rw [(large_sound parser member).2.2.1]
  exact mem_positions parser

theorem large_once (member : one ∈ largeGroups parser mergeThreshold rules)
    (member' : two ∈ largeGroups parser mergeThreshold rules) (index : i ∈ one.indices) (index' : i ∈ two.indices) :
    one = two := by
  obtain ⟨line,here,by_⟩ := (mem_indices parser member).mp index
  obtain ⟨line',here',by_'⟩ := (mem_indices parser member').mp index'
  obtain rfl := Option.some.inj (here.symm.trans here')
  exact List.inj_on_of_nodup_map (grouped_run parser rules).once (List.mem_of_mem_filter member)
    (List.mem_of_mem_filter member') (grouped_once parser by_ by_')

-- The first index of a group stays, with the merged rule; the others go.
theorem group_head (member : group ∈ largeGroups parser mergeThreshold rules) :
    ∃ first rest, group.indices = first :: rest ∧ first ∉ rest := by
  obtain ⟨-,-,indices,nonempty⟩ := large_sound parser member
  obtain ⟨first,rest,shape⟩ := List.exists_cons_of_ne_nil nonempty
  have distinct : group.indices.Nodup := indices ▸ positions_once parser group.pattern rules
  rw [shape] at distinct
  exact ⟨first,rest,shape,(List.nodup_cons.mp distinct).1⟩

def mergedRules (mergeThreshold : Nat) (rules : List Text) : List (Nat × Text) :=
  (largeGroups parser mergeThreshold rules).map fun group => (group.indices.headD 0,group.rule)

theorem merge_lines (mergeThreshold : Nat) (rules : List Text) (line : Text) :
    line ∈ mergeSimilarRules parser mergeThreshold rules ↔
      ∃ text i, rules[i]? = some text ∧
        i ∉ (largeGroups parser mergeThreshold rules).flatMap (fun group => group.indices.tail) ∧
        (match (mergedRules parser mergeThreshold rules).find? (·.1 = i) with | some merged => merged.2 | none => text) = line := by
  rw [mergeSimilarRules,List.mem_map]
  simp only [Prod.exists,List.mem_filter,List.mem_zipIdx_iff_getElem?,decide_eq_true_eq,and_assoc]
  rfl

-- No rule replaces a line that no large group takes.
theorem merged_none (outside : ∀ group ∈ largeGroups parser mergeThreshold rules, i ∉ group.indices) :
    (mergedRules parser mergeThreshold rules).find? (·.1 = i) = none := by
  apply List.find?_eq_none.mpr
  intro merged listed
  obtain ⟨group,member,rfl⟩ := List.mem_map.mp listed
  obtain ⟨first,rest,shape,-⟩ := group_head parser member
  intro same
  apply outside group member
  rw [shape,← of_decide_eq_true same,shape]
  exact List.mem_cons_self

-- The first line of a large group is replaced by the rule of that group: no
-- other group holds it.
theorem merged_some (member : group ∈ largeGroups parser mergeThreshold rules) (shape : group.indices = first :: rest) :
    (mergedRules parser mergeThreshold rules).find? (·.1 = first) = some (first,group.rule) := by
  have index : first ∈ group.indices := shape ▸ List.mem_cons_self
  have listed : (first,group.rule) ∈ mergedRules parser mergeThreshold rules := List.mem_map.mpr ⟨group,member,by rw [shape]; rfl⟩
  cases found : (mergedRules parser mergeThreshold rules).find? (·.1 = first) with
  | none => exact absurd (decide_eq_true rfl) (List.find?_eq_none.mp found _ listed)
  | some merged =>
    have at_ : merged.1 = first := by simpa using List.find?_some found
    obtain ⟨other,member',rfl⟩ := List.mem_map.mp (List.mem_of_find?_eq_some found)
    obtain ⟨first',rest',shape',-⟩ := group_head parser member'
    have index' : first ∈ other.indices := by
      rw [← at_,shape']
      exact List.mem_cons_self
    obtain rfl := large_once parser member' member index' index
    rw [shape]
    rfl

-- The lines of the result: those that no large group takes, and one for each
-- large group.
theorem merge_exact (mergeThreshold : Nat) (rules : List Text) (line : Text) :
    line ∈ mergeSimilarRules parser mergeThreshold rules ↔
      (line ∈ rules ∧ ¬Taken parser mergeThreshold rules line) ∨
        ∃ pattern, Large parser mergeThreshold rules pattern ∧ line = mergedRule parser rules pattern := by
  rw [merge_lines]
  constructor
  · rintro ⟨text,i,here,stays,rfl⟩
    cases found : (mergedRules parser mergeThreshold rules).find? (·.1 = i) with
    | some merged =>
      obtain ⟨group,member,rfl⟩ := List.mem_map.mp (List.mem_of_find?_eq_some found)
      obtain ⟨enough,same,-⟩ := large_sound parser member
      exact .inr ⟨group.pattern,enough,same⟩
    | none =>
      refine .inl ⟨List.mem_of_getElem? here,?_⟩
      rintro ⟨pattern,by_,enough⟩
      obtain ⟨group,member,rfl⟩ := large_complete parser enough
      obtain ⟨first,rest,shape,-⟩ := group_head parser member
      have index : i ∈ group.indices := (mem_indices parser member).mpr ⟨text,here,by_⟩
      rw [shape] at index
      rcases List.mem_cons.mp index with rfl | later
      · rw [merged_some parser member shape] at found
        cases found
      · exact stays (List.mem_flatMap.mpr ⟨group,member,by rw [shape]; exact later⟩)
  · rintro (⟨member,free⟩ | ⟨pattern,enough,rfl⟩)
    · obtain ⟨i,here⟩ := List.mem_iff_getElem?.mp member
      have outside : ∀ group ∈ largeGroups parser mergeThreshold rules, i ∉ group.indices := by
        intro group member index
        obtain ⟨line',here',by_⟩ := (mem_indices parser member).mp index
        obtain rfl := Option.some.inj (here.symm.trans here')
        exact free ⟨group.pattern,by_,(large_sound parser member).1⟩
      refine ⟨line,i,here,?_,by rw [merged_none parser outside]⟩
      intro removed
      obtain ⟨group,member,index⟩ := List.mem_flatMap.mp removed
      exact outside group member (List.mem_of_mem_tail index)
    · obtain ⟨group,member,rfl⟩ := large_complete parser enough
      obtain ⟨first,rest,shape,apart⟩ := group_head parser member
      have index : first ∈ group.indices := shape ▸ List.mem_cons_self
      obtain ⟨text,here,-⟩ := (mem_indices parser member).mp index
      refine ⟨text,first,here,?_,?_⟩
      · intro removed
        obtain ⟨other,member',later⟩ := List.mem_flatMap.mp removed
        obtain rfl := large_once parser member' member (List.mem_of_mem_tail later) index
        rw [shape] at later
        exact apart later
      · rw [merged_some parser member shape]
        exact (large_sound parser member).2.1

end Grouping

section Joining

-- Joined lists are read as one list.
theorem entries_join (domains : List Text) (some_ : domains ≠ []) :
    entries (['|'].intercalate domains) = domains.flatMap entries := splitOn_join some_

theorem join_some (some_ : domains ≠ []) (filled : ∀ value ∈ domains, value ≠ []) : ['|'].intercalate domains ≠ [] := by
  cases domains with
  | nil => exact absurd rfl some_
  | cons value rest =>
    have own := filled value List.mem_cons_self
    cases rest with
    | nil => simpa [List.intercalate] using own
    | cons other rest =>
      rw [List.intercalate_cons_of_ne_nil (List.cons_ne_nil _ _),List.append_assoc]
      exact fun empty => own (List.append_eq_nil_iff.mp empty).1

variable (parser : RuleParser)

theorem mergeKey_filled (key : mergeKey parser line = some (pattern,value)) : value ≠ [] := by
  rw [mergeKey] at key
  split at key
  · cases key
  · dsimp only at key
    split at key
    · cases key
    · split at key
      · next given =>
        cases key
        exact given.2
      · cases key

theorem values_filled (pattern : Text) (rules : List Text) : ∀ value ∈ values parser pattern rules, value ≠ [] := by
  intro value member
  obtain ⟨line,-,found⟩ := List.mem_filterMap.mp member
  obtain ⟨⟨own,domains⟩,key,given⟩ := Option.bind_eq_some_iff.mp found
  split at given
  · cases given
    exact mergeKey_filled parser key
  · cases given

end Joining

section Preservation
variable {Request : Type} (meaning : Meaning Request) (parser : RuleParser) (mergeThreshold : Nat) (rules : List Text)

-- The parser takes a merged rule apart into its pattern and one modifier.
def ReadsMerged : Prop :=
  ∀ pattern, Large parser mergeThreshold rules pattern →
    AGTreeParser.parse parser (mergedRule parser rules pattern) =
      some (.network ⟨pattern,false,[⟨"domain".toList,some (['|'].intercalate (values parser pattern rules)),false⟩]⟩)

-- What is decided by the rules outside of the large groups, by those inside,
-- and by the pattern of a large group on all its pages together.
def KeptBlocks (request : Request) (source : Text) : Prop :=
  ∃ line ∈ rules, ¬Taken parser mergeThreshold rules line ∧ meaning.Blocks parser line request source

def KeptExempts (request : Request) (source : Text) : Prop :=
  ∃ line ∈ rules, ¬Taken parser mergeThreshold rules line ∧ meaning.Exempts parser line request source

def TakenBlocks (request : Request) (source : Text) : Prop :=
  ∃ line ∈ rules, Taken parser mergeThreshold rules line ∧ meaning.Blocks parser line request source

def TakenExempts (request : Request) (source : Text) : Prop :=
  ∃ line ∈ rules, Taken parser mergeThreshold rules line ∧ meaning.Exempts parser line request source

def TogetherBlocks (request : Request) (source : Text) : Prop :=
  ∃ pattern, Large parser mergeThreshold rules pattern ∧ meaning.hits pattern request ∧
    meaning.OnPages ((values parser pattern rules).flatMap entries) source

def Agrees (request : Request) (source : Text) : Prop :=
  ¬KeptExempts meaning parser mergeThreshold rules request source →
    (KeptBlocks meaning parser mergeThreshold rules request source →
      ¬TakenExempts meaning parser mergeThreshold rules request source) ∧
    (¬KeptBlocks meaning parser mergeThreshold rules request source →
      (TogetherBlocks meaning parser mergeThreshold rules request source ↔
        TakenBlocks meaning parser mergeThreshold rules request source ∧
          ¬TakenExempts meaning parser mergeThreshold rules request source))

def Preserves : Prop :=
  ∀ request source, meaning.Decides parser (executeSync parser (mergeOnly mergeThreshold) rules) request source ↔
    meaning.Decides parser rules request source

theorem merged_decides (reads : ReadsMerged parser mergeThreshold rules) (enough : Large parser mergeThreshold rules pattern)
    (request : Request) (source : Text) :
    (meaning.Blocks parser (mergedRule parser rules pattern) request source ↔
      meaning.hits pattern request ∧ meaning.OnPages ((values parser pattern rules).flatMap entries) source) ∧
    ¬meaning.Exempts parser (mergedRule parser rules pattern) request source := by
  have joined := join_some enough.1 (values_filled parser pattern rules)
  have truthy : (some (['|'].intercalate (values parser pattern rules))).getD [] ≠ [] := joined
  have domain : meaning.Holds ⟨"domain".toList,some (['|'].intercalate (values parser pattern rules)),false⟩ request source ↔
      meaning.OnPages ((values parser pattern rules).flatMap entries) source := by
    rw [Meaning.Holds,if_pos ⟨rfl,rfl,truthy⟩,← entries_join _ enough.1]
    rfl
  rw [Meaning.Blocks,Meaning.Exempts,reads pattern enough]
  constructor
  · rw [← domain]
    constructor
    · intro blocks
      exact ⟨blocks.2.1,blocks.2.2 _ List.mem_cons_self⟩
    · intro given
      refine ⟨rfl,given.1,?_⟩
      intro modifier member
      obtain rfl := List.mem_singleton.mp member
      exact given.2
  · intro exempts
    exact Bool.false_ne_true exempts.1

theorem parted (holds : Text → Prop) : (∃ line ∈ rules, holds line) ↔
    (∃ line ∈ rules, ¬Taken parser mergeThreshold rules line ∧ holds line) ∨
      ∃ line ∈ rules, Taken parser mergeThreshold rules line ∧ holds line := by
  constructor
  · rintro ⟨line,member,own⟩
    by_cases taken : Taken parser mergeThreshold rules line
    · exact .inr ⟨line,member,taken,own⟩
    · exact .inl ⟨line,member,taken,own⟩
  · rintro (⟨line,member,-,own⟩ | ⟨line,member,-,own⟩)
    · exact ⟨line,member,own⟩
    · exact ⟨line,member,own⟩

theorem merged_parted (holds : Text → Prop) :
    (∃ line ∈ mergeSimilarRules parser mergeThreshold rules, holds line) ↔
      (∃ line ∈ rules, ¬Taken parser mergeThreshold rules line ∧ holds line) ∨
        ∃ pattern, Large parser mergeThreshold rules pattern ∧ holds (mergedRule parser rules pattern) := by
  simp only [merge_exact]
  constructor
  · rintro ⟨line,⟨member,free⟩ | ⟨pattern,enough,rfl⟩,own⟩
    · exact .inl ⟨line,member,free,own⟩
    · exact .inr ⟨pattern,enough,own⟩
  · rintro (⟨line,member,free,own⟩ | ⟨pattern,enough,own⟩)
    · exact ⟨line,.inl ⟨member,free⟩,own⟩
    · exact ⟨_,.inr ⟨pattern,enough,rfl⟩,own⟩

theorem decided_alike (keptBlocks keptExempts takenBlocks takenExempts together : Prop) :
    ((keptBlocks ∨ together) ∧ ¬keptExempts ↔ (keptBlocks ∨ takenBlocks) ∧ ¬(keptExempts ∨ takenExempts)) ↔
      (¬keptExempts → (keptBlocks → ¬takenExempts) ∧ (¬keptBlocks → (together ↔ takenBlocks ∧ ¬takenExempts))) := by
  by_cases exempts : keptExempts
  · simp [exempts]
  · by_cases blocks : keptBlocks
    · simp [exempts,blocks]
    · simp [exempts,blocks]

theorem preserves_exact (reads : ReadsMerged parser mergeThreshold rules) :
    Preserves meaning parser mergeThreshold rules ↔ ∀ request source, Agrees meaning parser mergeThreshold rules request source := by
  refine forall_congr' fun request => forall_congr' fun source => ?_
  have blocking : (∃ line ∈ mergeSimilarRules parser mergeThreshold rules, meaning.Blocks parser line request source) ↔
      KeptBlocks meaning parser mergeThreshold rules request source ∨
        TogetherBlocks meaning parser mergeThreshold rules request source := by
    rw [merged_parted]
    refine or_congr Iff.rfl (exists_congr fun pattern => and_congr_right fun enough => ?_)
    exact (merged_decides meaning parser mergeThreshold rules reads enough request source).1
  have exempting : (∃ line ∈ mergeSimilarRules parser mergeThreshold rules, meaning.Exempts parser line request source) ↔
      KeptExempts meaning parser mergeThreshold rules request source := by
    rw [merged_parted]
    refine or_iff_left ?_
    rintro ⟨pattern,enough,own⟩
    exact (merged_decides meaning parser mergeThreshold rules reads enough request source).2 own
  have blockingAll : (∃ line ∈ rules, meaning.Blocks parser line request source) ↔
      KeptBlocks meaning parser mergeThreshold rules request source ∨
        TakenBlocks meaning parser mergeThreshold rules request source := parted parser mergeThreshold rules _
  have exemptingAll : (∃ line ∈ rules, meaning.Exempts parser line request source) ↔
      KeptExempts meaning parser mergeThreshold rules request source ∨
        TakenExempts meaning parser mergeThreshold rules request source := parted parser mergeThreshold rules _
  rw [executeSync_mergeOnly,Meaning.Decides,Meaning.Decides,blocking,exempting,blockingAll,exemptingAll]
  exact decided_alike _ _ _ _ _

-- Rules of one group: the same exception flag, and the same modifiers beside
-- the domains.
def isDomain (modifier : Modifier) : Bool := modifier.name = "domain".toList && !modifier.exception

def Alike (one other : Text) : Prop :=
  ∃ first second, AGTreeParser.parse parser one = some (.network first) ∧
    AGTreeParser.parse parser other = some (.network second) ∧ first.exception = second.exception ∧
    (first.modifiers.eraseP isDomain).Perm (second.modifiers.eraseP isDomain)

def OnlyAlike : Prop :=
  ∀ pattern, Large parser mergeThreshold rules pattern → ∀ one ∈ rules, ∀ other ∈ rules,
    groupedBy parser pattern one = true → groupedBy parser pattern other = true → Alike parser one other

-- Lines that are merged into one rule: the same pattern as well.
def SamePattern (one other : Text) : Prop :=
  ∃ first second, AGTreeParser.parse parser one = some (.network first) ∧
    AGTreeParser.parse parser other = some (.network second) ∧ first.pattern = second.pattern

-- At the indices of every group that becomes one rule.
def MergesAlike : Prop :=
  ∀ group ∈ largeGroups parser mergeThreshold rules, ∀ i ∈ group.indices, ∀ j ∈ group.indices,
    ∀ one other, rules[i]? = some one → rules[j]? = some other → SamePattern parser one other ∧ Alike parser one other

theorem key_pattern (key : mergeKey parser line = some (own,value)) (parsed : AGTreeParser.parse parser line = some (.network rule)) :
    rule.pattern = own := by
  have pattern : (loadAdblockRuleProperties parser (trim line)).pattern = rule.pattern := by
    simp [loadAdblockRuleProperties,parsed]
  rw [mergeKey] at key
  split at key
  · cases key
  · dsimp only at key
    rw [pattern] at key
    split at key
    · cases key
    · split at key
      · exact congrArg Prod.fst (Option.some.inj key)
      · cases key

theorem grouped_same (one_ : groupedBy parser pattern one = true) (other_ : groupedBy parser pattern other = true)
    (alike : Alike parser one other) : SamePattern parser one other := by
  obtain ⟨first,second,parsed,parsed',-⟩ := alike
  obtain ⟨value,key⟩ := (grouped_exact parser).mp one_
  obtain ⟨value',key'⟩ := (grouped_exact parser).mp other_
  exact ⟨first,second,parsed,parsed',(key_pattern parser key parsed).trans (key_pattern parser key' parsed').symm⟩

theorem merges_alike : MergesAlike parser mergeThreshold rules ↔ OnlyAlike parser mergeThreshold rules := by
  constructor
  · intro merges pattern enough one member other member' by_ by_'
    obtain ⟨group,known,rfl⟩ := large_complete parser enough
    obtain ⟨i,here⟩ := List.getElem?_of_mem member
    obtain ⟨j,there⟩ := List.getElem?_of_mem member'
    exact (merges group known i ((mem_indices parser known).mpr ⟨one,here,by_⟩) j ((mem_indices parser known).mpr ⟨other,there,by_'⟩)
      one other here there).2
  · intro alike group known i index j index' one other here there
    obtain ⟨one',here',by_⟩ := (mem_indices parser known).mp index
    obtain ⟨other',there',by_'⟩ := (mem_indices parser known).mp index'
    obtain rfl := Option.some.inj (here.symm.trans here')
    obtain rfl := Option.some.inj (there.symm.trans there')
    have same := alike group.pattern (large_sound parser known).1 one (List.mem_of_getElem? here) other (List.mem_of_getElem? there) by_ by_'
    exact ⟨grouped_same parser by_ by_' same,same⟩

-- Merging keeps what is decided, and merges alike rules only, just where the
-- large groups hold alike rules and decide together what they decide apart.
theorem merging_exact (reads : ReadsMerged parser mergeThreshold rules) :
    Preserves meaning parser mergeThreshold rules ∧ MergesAlike parser mergeThreshold rules ↔
      (∀ request source, Agrees meaning parser mergeThreshold rules request source) ∧
        OnlyAlike parser mergeThreshold rules :=
  and_congr (preserves_exact meaning parser mergeThreshold rules reads) (merges_alike parser mergeThreshold rules)

-- That is so where the rules of the groups block and list pages only.
def PlainDomains : Prop :=
  ∀ line ∈ rules, Taken parser mergeThreshold rules line → ∃ pattern value,
    AGTreeParser.parse parser line = some (.network ⟨pattern,false,[⟨"domain".toList,some value,false⟩]⟩) ∧
      value ≠ [] ∧ ∀ d ∈ entries value, negated d = false

theorem mergeKey_network (key : mergeKey parser line = some (own,value))
    (parsed : AGTreeParser.parse parser line = some (.network ⟨pattern,exception,[⟨"domain".toList,some domains,false⟩]⟩)) :
    pattern = own ∧ domains = value := by
  rw [mergeKey] at key
  -- The name is the same on both sides, its letters do not matter.
  generalize "domain".toList = domain at key parsed
  split at key
  · cases key
  · have properties : loadAdblockRuleProperties parser (trim line) =
        { ruleText := trim line, pattern := pattern, whitelist := exception
          options := some [⟨domain,some domains⟩], hostname := patternHostname pattern } := by
      simp [loadAdblockRuleProperties,parsed,optionOf]
    rw [properties] at key
    simp only [Option.getD_some,List.find?_cons,decide_true,Option.bind_some] at key
    split at key
    · cases key
      exact ⟨rfl,rfl⟩
    · cases key

theorem taken_key (taken : Taken parser mergeThreshold rules line) :
    ∃ pattern value, mergeKey parser line = some (pattern,value) ∧ Large parser mergeThreshold rules pattern := by
  obtain ⟨pattern,by_,enough⟩ := taken
  obtain ⟨value,key⟩ := (grouped_exact parser).mp by_
  exact ⟨pattern,value,key,enough⟩

theorem mem_values : value ∈ values parser pattern rules ↔ ∃ line ∈ rules, mergeKey parser line = some (pattern,value) := by
  rw [values,List.mem_filterMap]
  refine exists_congr fun line => and_congr_right fun _ => ?_
  rw [Option.bind_eq_some_iff]
  constructor
  · rintro ⟨⟨own,domains⟩,key,given⟩
    split at given
    · next same =>
      cases given
      exact same ▸ key
    · cases given
  · intro key
    exact ⟨(pattern,value),key,if_pos rfl⟩

theorem onPages_plain (some_ : domains ≠ []) (plain : ∀ d ∈ domains, negated d = false) (source : Text) :
    meaning.OnPages domains source ↔ ∃ d ∈ domains, meaning.onPage d source := by
  have listed : ¬∀ d ∈ domains, negated d = true := by
    intro all
    obtain ⟨d,member⟩ := List.exists_mem_of_ne_nil _ some_
    have no := plain d member
    rw [all d member] at no
    cases no
  constructor
  · rintro ⟨all | ⟨d,member,-,here⟩,-⟩
    · exact absurd all listed
    · exact ⟨d,member,here⟩
  · rintro ⟨d,member,here⟩
    refine ⟨.inr ⟨d,member,plain d member,here⟩,?_⟩
    intro other member' not_
    rw [plain other member'] at not_
    cases not_

theorem plain_blocks (key : mergeKey parser line = some (pattern,value))
    (parsed : AGTreeParser.parse parser line = some (.network ⟨own,false,[⟨"domain".toList,some domains,false⟩]⟩))
    (plain : ∀ d ∈ entries domains, negated d = false) (request : Request) (source : Text) :
    meaning.Blocks parser line request source ↔
      meaning.hits pattern request ∧ ∃ d ∈ entries value, meaning.onPage d source := by
  obtain ⟨rfl,rfl⟩ := mergeKey_network parser key parsed
  have filled := mergeKey_filled parser key
  have pages := onPages_plain meaning (List.splitOn_ne_nil '|' domains) plain source
  rw [Meaning.Blocks,parsed]
  simp only [Meaning.Applies,Meaning.Holds,List.mem_singleton,forall_eq,Option.getD_some,ne_eq,filled,not_false_eq_true,
    and_self,if_true,true_and]
  exact and_congr_right fun _ => pages

theorem plain_merges (plain : PlainDomains parser mergeThreshold rules) :
    (∀ request source, Agrees meaning parser mergeThreshold rules request source) ∧
      OnlyAlike parser mergeThreshold rules := by
  have own (line : Text) (member : line ∈ rules) (pattern value : Text) (key : mergeKey parser line = some (pattern,value))
      (enough : Large parser mergeThreshold rules pattern) :
      AGTreeParser.parse parser line = some (.network ⟨pattern,false,[⟨"domain".toList,some value,false⟩]⟩) ∧
        ∀ d ∈ entries value, negated d = false := by
    have by_ : groupedBy parser pattern line = true := by
      rw [groupedBy,key]
      exact decide_eq_true rfl
    obtain ⟨pattern',value',parsed,-,pages⟩ := plain line member ⟨pattern,by_,enough⟩
    obtain ⟨rfl,rfl⟩ := mergeKey_network parser key parsed
    exact ⟨parsed,pages⟩
  constructor
  · intro request source _
    have none_ : ¬TakenExempts meaning parser mergeThreshold rules request source := by
      rintro ⟨line,member,taken,exempts⟩
      obtain ⟨pattern,value,key,enough⟩ := taken_key parser mergeThreshold rules taken
      rw [Meaning.Exempts,(own line member pattern value key enough).1] at exempts
      exact Bool.false_ne_true exempts.1
    refine ⟨fun _ => none_,fun _ => ?_⟩
    rw [and_iff_left none_]
    constructor
    · rintro ⟨pattern,enough,hits,pages⟩
      have listed : (values parser pattern rules).flatMap entries ≠ [] := by
        obtain ⟨value,member⟩ := List.exists_mem_of_ne_nil _ enough.1
        obtain ⟨d,inside⟩ := List.exists_mem_of_ne_nil _ (List.splitOn_ne_nil '|' value)
        exact List.ne_nil_of_mem (List.mem_flatMap.mpr ⟨value,member,inside⟩)
      have all : ∀ d ∈ (values parser pattern rules).flatMap entries, negated d = false := by
        intro d inside
        obtain ⟨value,member,entry⟩ := List.mem_flatMap.mp inside
        obtain ⟨line,there,key⟩ := (mem_values parser rules).mp member
        exact (own line there pattern value key enough).2 d entry
      obtain ⟨d,inside,here⟩ := (onPages_plain meaning listed all source).mp pages
      obtain ⟨value,member,entry⟩ := List.mem_flatMap.mp inside
      obtain ⟨line,there,key⟩ := (mem_values parser rules).mp member
      obtain ⟨parsed,plain_⟩ := own line there pattern value key enough
      refine ⟨line,there,⟨pattern,?_,enough⟩,?_⟩
      · rw [groupedBy,key]
        exact decide_eq_true rfl
      · exact (plain_blocks meaning parser key parsed plain_ request source).mpr ⟨hits,d,entry,here⟩
    · rintro ⟨line,member,taken,blocks⟩
      obtain ⟨pattern,value,key,enough⟩ := taken_key parser mergeThreshold rules taken
      obtain ⟨parsed,plain_⟩ := own line member pattern value key enough
      obtain ⟨hits,d,entry,here⟩ := (plain_blocks meaning parser key parsed plain_ request source).mp blocks
      have inside : d ∈ (values parser pattern rules).flatMap entries :=
        List.mem_flatMap.mpr ⟨value,(mem_values parser rules).mpr ⟨line,member,key⟩,entry⟩
      refine ⟨pattern,enough,hits,?_⟩
      apply (onPages_plain meaning (List.ne_nil_of_mem inside) ?_ source).mpr ⟨d,inside,here⟩
      intro other inside'
      obtain ⟨value',member',entry'⟩ := List.mem_flatMap.mp inside'
      obtain ⟨line',there,key'⟩ := (mem_values parser rules).mp member'
      exact (own line' there pattern value' key' enough).2 other entry'
  · intro pattern enough one member other member' by_ by_'
    obtain ⟨own1,value1,key1,large1⟩ := taken_key parser mergeThreshold rules ⟨pattern,by_,enough⟩
    obtain ⟨own2,value2,key2,large2⟩ := taken_key parser mergeThreshold rules ⟨pattern,by_',enough⟩
    exact ⟨_,_,(own one member own1 value1 key1 large1).1,(own other member' own2 value2 key2 large2).1,rfl,List.Perm.refl _⟩

end Preservation

section Runs

-- Patterns, modifiers behind a dollar sign and exceptions, for concrete runs.
def modifierOf (text : Text) : Modifier :=
  ⟨text.takeWhile (· ≠ '='),if '=' ∈ text then some ((text.dropWhile (· ≠ '=')).tail) else none,false⟩

def modifierParser : RuleParser := fun text =>
  let exception := startsWith text ['@','@']
  let body := if exception then text.drop 2 else text
  let options := (body.dropWhile (· ≠ '$')).tail
  some (.network ⟨body.takeWhile (· ≠ '$'),exception,if options = [] then [] else (options.splitOn ',').map modifierOf⟩)

-- Requests are hosts; a page is on its own domain and on those above it.
def hostMeaning : Meaning Text where
  hits := fun pattern host => pattern = blocking host
  onPage := fun domain source => HostPatterns.Within '.' domain source
  allows := fun _ _ _ => False
  elsewhere := fun _ _ _ => False

def allowed : List Text := ["@@||ads.com^$domain=a.com".toList,"@@||ads.com^$domain=b.com".toList]
def blocked : List Text := ["||ads.com^$domain=a.com".toList,"||ads.com^$domain=b.com".toList]

example : executeSync modifierParser (mergeOnly 2) allowed = ["||ads.com^$domain=a.com|b.com".toList] := by decide

theorem reads_lines (lines : ∀ line ∈ rules, ∀ key ∈ mergeKey parser line,
    AGTreeParser.parse parser (mergedRule parser rules key.1) = some (.network
      ⟨key.1,false,[⟨"domain".toList,some (['|'].intercalate (values parser key.1 rules)),false⟩]⟩)) :
    ReadsMerged parser mergeThreshold rules := by
  intro pattern enough
  obtain ⟨line,member,by_⟩ := values_none parser enough.1
  obtain ⟨_,value,key,-⟩ := taken_key parser mergeThreshold rules ⟨pattern,by_,enough⟩
  rw [groupedBy,key,Option.any_some,decide_eq_true_eq] at by_
  obtain rfl := by_
  exact lines line member _ key

theorem allowed_reads : ReadsMerged modifierParser 2 allowed := reads_lines (by decide)
theorem blocked_reads : ReadsMerged modifierParser 2 blocked := reads_lines (by decide)

-- Two exceptions become a rule that blocks.
theorem exceptions_merged :
    ¬∀ {Request : Type} (meaning : Meaning Request) parser mergeThreshold rules, 2 ≤ mergeThreshold →
      ReadsMerged parser mergeThreshold rules →
      Preserves meaning parser mergeThreshold rules ∧ MergesAlike parser mergeThreshold rules := by
  intro always
  have same := (always hostMeaning modifierParser 2 allowed (by decide) allowed_reads).1 "ads.com".toList "a.com".toList
  have merged : executeSync modifierParser (mergeOnly 2) allowed = ["||ads.com^$domain=a.com|b.com".toList] := by decide
  have parsed : AGTreeParser.parse modifierParser "||ads.com^$domain=a.com|b.com".toList =
      some (.network ⟨blocking "ads.com".toList,false,[⟨"domain".toList,some "a.com|b.com".toList,false⟩]⟩) := by decide
  have pages : hostMeaning.OnPages (entries "a.com|b.com".toList) "a.com".toList := by
    apply (onPages_plain hostMeaning (List.splitOn_ne_nil '|' _) (by decide) _).mpr
    exact ⟨"a.com".toList,by decide,HostPatterns.within_refl '.' _⟩
  have blocks : hostMeaning.Decides modifierParser ["||ads.com^$domain=a.com|b.com".toList] "ads.com".toList "a.com".toList := by
    refine ⟨⟨_,List.mem_singleton_self _,?_⟩,?_⟩
    · rw [Meaning.Blocks,parsed]
      refine ⟨rfl,rfl,?_⟩
      intro modifier member
      rw [List.mem_singleton.mp member,Meaning.Holds,if_pos ⟨rfl,rfl,List.cons_ne_nil _ _⟩]
      exact pages
    · rintro ⟨line,member,exempts⟩
      rw [List.mem_singleton.mp member,Meaning.Exempts,parsed] at exempts
      exact Bool.false_ne_true exempts.1
  rw [merged] at same
  obtain ⟨⟨line,member,own⟩,-⟩ := same.mp blocks
  have exceptions : ∀ line ∈ allowed, ∃ rule, AGTreeParser.parse modifierParser line = some (.network rule) ∧
      rule.exception = true := by
    intro line member
    rcases List.mem_pair.mp member with rfl | rfl
    · exact ⟨_,rfl,rfl⟩
    · exact ⟨_,rfl,rfl⟩
  obtain ⟨rule,parse,exception⟩ := exceptions line member
  rw [Meaning.Blocks,parse] at own
  exact Bool.false_ne_true (own.1.symm.trans exception)

theorem blocked_plain : PlainDomains modifierParser 2 blocked := by
  intro line member _
  rcases List.mem_pair.mp member with rfl | rfl
  · exact ⟨_,_,rfl,List.cons_ne_nil _ _,by decide⟩
  · exact ⟨_,_,rfl,List.cons_ne_nil _ _,by decide⟩

theorem blocked_merged :
    Preserves hostMeaning modifierParser 2 blocked ∧ MergesAlike modifierParser 2 blocked :=
  (merging_exact hostMeaning modifierParser 2 blocked blocked_reads).mpr (plain_merges hostMeaning modifierParser 2 blocked blocked_plain)

end Runs

end AdblockCompiler.Merging
