import AdblockCompiler.Compress

-- A compressed list has no two rules of one hostname or of a hostname and its
-- parent, and compressing it again changes nothing.
namespace AdblockCompiler.Compress
open JsText Rules HostPatterns

-- The hostnames that rules of a pass are recorded under.
def names (rules : List IBlocklistRule) : List Text := (rules.filter (·.canCompress)).filterMap IBlocklistRule.hostname

section Recording

theorem names_append (one two : List IBlocklistRule) : names (one ++ two) = names one ++ names two := by
  rw [names,names,names,List.filter_append,List.filterMap_append]

theorem names_other (cannot : rule.canCompress = false) : names [rule] = [] := by
  simp [names,cannot]

theorem names_own (can : rule.canCompress = true) (named : rule.hostname = some hostname) : names [rule] = [hostname] := by
  simp [names,can,named]

theorem mem_names : hostname ∈ names rules ↔ ∃ rule ∈ rules, rule.canCompress = true ∧ rule.hostname = some hostname := by
  simp only [names,List.mem_filterMap,List.mem_filter,and_assoc]

-- The table lists what the kept rules are recorded under, each once.
structure Recorded (pass : Pass) : Prop where
  table : names pass.filtered = pass.byHostname
  once : pass.byHostname.Nodup
  own : ∀ hostname ∈ pass.byHostname, hostname ≠ [] ∧ hostname ∉ inherited

theorem recorded_step {pass : Pass} (recorded : Recorded pass) (new : IBlocklistRule) : Recorded (pass.add new) := by
  obtain ⟨table,once,own⟩ := recorded
  unfold Pass.add
  split
  · next can =>
    split
    · next hostname named =>
      split
      · next open_ =>
        obtain ⟨nonempty,absent⟩ := open_
        obtain ⟨free,missing⟩ : hostname ∉ inherited ∧ hostname ∉ pass.byHostname := by simpa [listedIn] using absent
        refine ⟨?_,?_,?_⟩
        · rw [names_append,table,names_own can named]
        · refine List.nodup_append.mpr ⟨once,List.nodup_singleton hostname,?_⟩
          intro one kept other single same
          rw [List.mem_singleton] at single
          subst single
          exact missing (same ▸ kept)
        · intro other member
          rcases List.mem_append.mp member with old | last
          · exact own other old
          · rw [List.mem_singleton.mp last]
            exact ⟨nonempty,free⟩
      · exact ⟨table,once,own⟩
    · exact ⟨table,once,own⟩
  · next cannot =>
    refine ⟨?_,once,own⟩
    rw [names_append,table,names_other (Bool.eq_false_iff.mpr cannot),List.append_nil]

theorem recorded_run {pass : Pass} (recorded : Recorded pass) (more : List IBlocklistRule) :
    Recorded (more.foldl Pass.add pass) := by
  induction more generalizing pass with
  | nil => exact recorded
  | cons new more ih => exact ih (recorded_step recorded new)

-- Rules of new hostnames are all kept.
theorem fresh_run (pass : Pass) (more : List IBlocklistRule)
    (named : ∀ rule ∈ more, rule.canCompress = true → ∃ hostname, rule.hostname = some hostname ∧ hostname ≠ [] ∧ hostname ∉ inherited)
    (fresh : (pass.byHostname ++ names more).Nodup) :
    more.foldl Pass.add pass = ⟨pass.byHostname ++ names more,pass.filtered ++ more⟩ := by
  induction more generalizing pass with
  | nil =>
    rw [List.foldl_nil,names,List.filter_nil,List.filterMap_nil,List.append_nil,List.append_nil]
  | cons new more ih =>
    have parts : names (new :: more) = names [new] ++ names more := names_append [new] more
    have later := fun rule member => named rule (List.mem_cons_of_mem new member)
    have step : pass.add new = ⟨pass.byHostname ++ names [new],pass.filtered ++ [new]⟩ := by
      unfold Pass.add
      cases can : new.canCompress with
      | false =>
        rw [names_other can,List.append_nil]
        rfl
      | true =>
        obtain ⟨hostname,given,nonempty,free⟩ := named new List.mem_cons_self can
        have missing : hostname ∉ pass.byHostname := by
          intro listed
          rw [parts,names_own can given] at fresh
          exact (List.nodup_append.mp fresh).2.2 hostname listed hostname List.mem_cons_self rfl
        have open_ : hostname ≠ [] ∧ listedIn pass.byHostname hostname = false := ⟨nonempty,by simp [listedIn,free,missing]⟩
        rw [names_own can given]
        simp only [given,if_true]
        rw [if_pos open_]
    rw [parts,← List.append_assoc] at fresh
    rw [List.foldl_cons,step,ih _ later fresh,parts,List.append_assoc,List.append_assoc,List.singleton_append]

end Recording

section Output
variable (parser : RuleParser)

theorem scan_recorded (rules : List Text) : Recorded (scan parser rules) :=
  recorded_run ⟨rfl,List.nodup_nil,fun _ none_ => by cases none_⟩ _

def recorded (rules : List Text) : List Text := names (output parser rules)

theorem recorded_sublist (rules : List Text) : (recorded parser rules).Sublist (scan parser rules).byHostname := by
  rw [← (scan_recorded parser rules).table]
  exact (List.filter_sublist.filter _).filterMap _

theorem recorded_once (rules : List Text) : (recorded parser rules).Nodup :=
  (scan_recorded parser rules).once.sublist (recorded_sublist parser rules)

theorem mem_recorded (rules : List Text) :
    hostname ∈ recorded parser rules ↔
      hostname ∈ (scan parser rules).byHostname ∧
        ∀ parent ∈ parents '.' hostname.tail, listedIn (scan parser rules).byHostname parent = false := by
  have own := scan_recorded parser rules
  have needed (item : IBlocklistRule) (can : item.canCompress = true) (named : item.hostname = some hostname)
      (nonempty : hostname ≠ []) : (!redundant (scan parser rules).byHostname item) = true ↔
        ∀ parent ∈ parents '.' hostname.tail, listedIn (scan parser rules).byHostname parent = false := by
    rw [Bool.not_eq_true',Bool.eq_false_iff,ne_eq,redundant_exact _ can named nonempty]
    simp only [not_exists,not_and,Bool.not_eq_true]
  rw [recorded,mem_names]
  constructor
  · rintro ⟨item,member,can,named⟩
    obtain ⟨kept,top⟩ := List.mem_filter.mp member
    have listed : hostname ∈ (scan parser rules).byHostname := by
      rw [← own.table]
      exact mem_names.mpr ⟨item,kept,can,named⟩
    exact ⟨listed,(needed item can named (own.own hostname listed).1).mp top⟩
  · rintro ⟨listed,top⟩
    have found : hostname ∈ names (scan parser rules).filtered := own.table ▸ listed
    obtain ⟨item,kept,can,named⟩ := mem_names.mp found
    exact ⟨item,List.mem_filter.mpr ⟨kept,(needed item can named (own.own hostname listed).1).mpr top⟩,can,named⟩

-- The rule that the text of an output rule is read as.
theorem item_origin (rules : List Text) (member : item ∈ output parser rules) :
    (∃ rule, compressible parser rule = false ∧ item = ⟨rule,false,none,rule⟩) ∨
      ∃ rule p, p ∈ patterns parser rule ∧ compressible parser rule = true ∧ item = entry parser rule p := by
  have kept : item ∈ rules.flatMap (items parser) := by
    have inside := (List.mem_filter.mp member).1
    cases can : item.canCompress with
    | true =>
      obtain ⟨hostname,-,-,found⟩ := ((scan_exact parser rules).first item can).mp inside
      exact List.mem_of_find?_eq_some found
    | false =>
      have other : item ∈ (scan parser rules).filtered.filter fun item => !item.canCompress :=
        List.mem_filter.mpr ⟨inside,by rw [can]; rfl⟩
      rw [(scan_exact parser rules).others] at other
      exact (List.mem_filter.mp other).1
  obtain ⟨rule,-,listed⟩ := List.mem_flatMap.mp kept
  rw [items] at listed
  split at listed
  · next can =>
    obtain ⟨p,reading,rfl⟩ := List.mem_map.mp listed
    exact .inr ⟨rule,p,reading,can,rfl⟩
  · next cannot =>
    exact .inl ⟨rule,Bool.eq_false_iff.mpr cannot,List.mem_singleton.mp listed⟩

-- Read again it is one rule of the same text, of the same hostname or of none.
def again (item : IBlocklistRule) : IBlocklistRule :=
  if compressible parser item.ruleText then ⟨item.ruleText,true,item.hostname,item.ruleText⟩
  else ⟨item.ruleText,false,none,item.ruleText⟩

theorem output_again (reads : ReadsBlocking parser) (rules : List Text) (member : item ∈ output parser rules) :
    items parser item.ruleText = [again parser item] ∧ ((again parser item).canCompress = true → item.canCompress = true) := by
  rcases item_origin parser rules member with ⟨rule,cannot,rfl⟩ | ⟨rule,p,reading,can,rfl⟩
  · simp [items,again,cannot]
  · obtain ⟨-,named,only⟩ := entry_stands parser reads reading
    refine ⟨?_,fun _ => rfl⟩
    have network : (hostnames parser (entry parser rule p).ruleText).isSome = false ∧
        isJustDomain (entry parser rule p).ruleText = false := by
      cases own : (hostnames parser rule).isSome || isJustDomain rule with
      | true =>
        have text : (entry parser rule p).ruleText = blocking p.host := by simp [entry,own]
        have parsed : AGTreeParser.parse parser (blocking p.host) = some (.network { pattern := blocking p.host }) := by
          apply reads
          cases listed : hostnames parser rule with
          | some found =>
            obtain ⟨hostname,inside,rfl⟩ : ∃ hostname ∈ found, ⟨true,hostname⟩ = p := by simpa [patterns,listed] using reading
            exact .inr ⟨rule,found,listed,inside⟩
          | none =>
            have domain : isJustDomain rule = true := by simpa [listed] using own
            obtain rfl : p = ⟨true,rule⟩ := by simpa [patterns,listed,domain] using reading
            exact .inl domain
        rw [text]
        exact ⟨by simp [hostnames,parsed],blocking_no_domain p.host⟩
      | false =>
        have text : (entry parser rule p).ruleText = rule := by simp [entry,own]
        rw [text]
        exact Bool.or_eq_false_iff.mp own
    rw [items,again]
    split
    · rw [only,List.map_singleton,named,entry,network.1,network.2]
      rfl
    · rfl

theorem again_text (item : IBlocklistRule) : (again parser item).ruleText = item.ruleText := by
  rw [again]
  split <;> rfl

theorem again_hostname (can : (again parser item).canCompress = true) : (again parser item).hostname = item.hostname := by
  revert can
  rw [again]
  split
  · exact fun _ => rfl
  · exact fun can => by cases can

theorem names_again (list : List IBlocklistRule)
    (still : ∀ item ∈ list, (again parser item).canCompress = true → item.canCompress = true) :
    (names (list.map (again parser))).Sublist (names list) := by
  induction list with
  | nil => exact List.Sublist.refl []
  | cons item list ih =>
    have parts : names (item :: list) = names [item] ++ names list := names_append [item] list
    have parts' : names ((item :: list).map (again parser)) = names [again parser item] ++ names (list.map (again parser)) :=
      names_append [again parser item] _
    rw [parts,parts']
    apply List.Sublist.append _ (ih fun other member => still other (List.mem_cons_of_mem item member))
    cases can : (again parser item).canCompress with
    | false =>
      rw [names_other can]
      exact List.nil_sublist _
    | true =>
      have own := still item List.mem_cons_self can
      have same := again_hostname parser can
      rw [names,names,List.filter_cons_of_pos can,List.filter_cons_of_pos own,List.filterMap_cons,List.filterMap_cons,same]

theorem output_named (rules : List Text) (member : item ∈ output parser rules) (can : item.canCompress = true) :
    ∃ hostname, item.hostname = some hostname ∧ hostname ∈ recorded parser rules := by
  rcases item_origin parser rules member with ⟨rule,cannot,rfl⟩ | ⟨rule,p,reading,-,rfl⟩
  · cases can
  · exact ⟨p.host,rfl,mem_names.mpr ⟨_,member,can,rfl⟩⟩

-- Compressing a second time scans the same rules and drops none.
theorem output_stable (reads : ReadsBlocking parser) (rules : List Text) :
    executeSync parser ((output parser rules).map IBlocklistRule.ruleText) =
      .ok ((output parser rules).map IBlocklistRule.ruleText) := by
  let kept := output parser rules
  have read : (kept.map IBlocklistRule.ruleText).flatMap (items parser) = kept.map (again parser) := by
    rw [List.flatMap_map,← List.flatMap_singleton' (kept.map (again parser)),List.flatMap_map]
    exact List.flatMap_congr fun item member => (output_again parser reads rules member).1
  have still : ∀ item ∈ kept, (again parser item).canCompress = true → item.canCompress = true :=
    fun item member => (output_again parser reads rules member).2
  have fewer := names_again parser kept still
  have own := scan_recorded parser rules
  have named : ∀ rule ∈ kept.map (again parser), rule.canCompress = true →
      ∃ hostname, rule.hostname = some hostname ∧ hostname ∈ recorded parser rules := by
    intro rule member can
    obtain ⟨item,inside,rfl⟩ := List.mem_map.mp member
    rw [again_hostname parser can]
    exact output_named parser rules inside (still item inside can)
  have scanned : scan parser (kept.map IBlocklistRule.ruleText) = ⟨names (kept.map (again parser)),kept.map (again parser)⟩ := by
    rw [scan,read]
    apply fresh_run {} (kept.map (again parser))
    · intro rule member can
      obtain ⟨hostname,given,listed⟩ := named rule member can
      exact ⟨hostname,given,own.own hostname ((recorded_sublist parser rules).subset listed)⟩
    · exact (recorded_once parser rules).sublist fewer
  have needed : ∀ rule ∈ kept.map (again parser), redundant (names (kept.map (again parser))) rule = false := by
    intro rule member
    cases can : rule.canCompress with
    | false => simp [redundant,can]
    | true =>
      obtain ⟨hostname,given,listed⟩ := named rule member can
      obtain ⟨there,top⟩ := (mem_recorded parser rules).mp listed
      rw [Bool.eq_false_iff,ne_eq,redundant_exact _ can given (own.own hostname there).1]
      rintro ⟨parent,above,known⟩
      have none_ := top parent above
      rw [listedIn,Bool.or_eq_false_iff] at none_
      rw [listedIn,Bool.or_eq_true] at known
      rcases known with free | found
      · rw [none_.1] at free
        cases free
      · have before := (recorded_sublist parser rules).subset (fewer.subset (of_decide_eq_true found))
        exact of_decide_eq_false none_.2 before
  have all : output parser (kept.map IBlocklistRule.ruleText) = kept.map (again parser) := by
    rw [output,scanned]
    apply List.filter_eq_self.mpr
    intro rule member
    rw [needed rule member]
    rfl
  rw [executeSync_exact,all,List.map_map]
  exact congrArg Except.ok (List.map_congr_left fun item _ => again_text parser item)

end Output

section Minimality
variable (parser : RuleParser)

-- A name that another ends in behind a dot.
def ProperAncestor (ancestor hostname : Text) : Prop := ∃ front, hostname = front ++ '.' :: ancestor

def Minimal (rules : List Text) : Prop :=
  executeSync parser rules = .ok ((output parser rules).map IBlocklistRule.ruleText) ∧
    (recorded parser rules).Nodup ∧
    (∀ one ∈ recorded parser rules, ∀ other ∈ recorded parser rules, ¬ProperAncestor one other) ∧
    executeSync parser ((output parser rules).map IBlocklistRule.ruleText) =
      .ok ((output parser rules).map IBlocklistRule.ruleText)

-- A hostname with no listed parent that is also listed behind a leading dot:
-- the search for parents begins behind the first letter.
def Dotted (rules : List Text) : Prop :=
  ∃ hostname, hostname ≠ [] ∧ hostname ∉ inherited ∧ (∃ p ∈ candidates parser rules, p.host = hostname) ∧
    (∃ p ∈ candidates parser rules, p.host = '.' :: hostname) ∧ ∀ parent ∈ parents '.' hostname, ¬Listed parser rules parent

theorem recorded_exact (reads : ReadsBlocking parser) (rules : List Text) :
    hostname ∈ recorded parser rules ↔ hostname ≠ [] ∧ hostname ∉ inherited ∧
      (∃ p ∈ candidates parser rules, p.host = hostname) ∧ ∀ parent ∈ parents '.' hostname.tail, ¬Listed parser rules parent := by
  have own := scan_recorded parser rules
  have table := table_exact parser reads rules hostname
  have top (parent : Text) : listedIn (scan parser rules).byHostname parent = false ↔ ¬Listed parser rules parent := by
    rw [← table_exact parser reads,Bool.not_eq_true]
  rw [mem_recorded]
  simp only [top]
  constructor
  · rintro ⟨there,above⟩
    obtain ⟨nonempty,free⟩ := own.own hostname there
    have listed : listedIn (scan parser rules).byHostname hostname = true := by simp [listedIn,there]
    rcases table.mp listed with bad | ⟨_,found⟩
    · exact absurd bad free
    · exact ⟨nonempty,free,found,above⟩
  · rintro ⟨nonempty,free,found,above⟩
    have listed := table.mpr (.inr ⟨nonempty,found⟩)
    rw [listedIn,decide_eq_false free,Bool.false_or] at listed
    exact ⟨of_decide_eq_true listed,above⟩

theorem leading_dot_free (hostname : Text) : '.' :: hostname ∉ inherited := by
  have letters : ∀ name ∈ inherited, name.head? ≠ some '.' := by decide
  exact fun member => letters _ member rfl

theorem compress_minimal_exact (reads : ReadsBlocking parser) (rules : List Text) :
    Minimal parser rules ↔ ¬Dotted parser rules := by
  constructor
  · rintro ⟨-,-,apart,-⟩ ⟨hostname,nonempty,free,found,dotted,top⟩
    have one : hostname ∈ recorded parser rules := by
      refine (recorded_exact parser reads rules).mpr ⟨nonempty,free,found,?_⟩
      intro parent above
      obtain ⟨front,same⟩ := (mem_parents '.').mp above
      obtain ⟨c,rest,rfl⟩ := List.exists_cons_of_ne_nil nonempty
      exact top parent ((mem_parents '.').mpr ⟨c :: front,congrArg (c :: ·) same⟩)
    have other : '.' :: hostname ∈ recorded parser rules :=
      (recorded_exact parser reads rules).mpr ⟨List.cons_ne_nil _ _,leading_dot_free hostname,dotted,top⟩
    exact apart hostname one ('.' :: hostname) other ⟨[],rfl⟩
  · intro plain
    refine ⟨executeSync_exact parser rules,recorded_once parser rules,?_,output_stable parser reads rules⟩
    rintro one member other member' ⟨front,rfl⟩
    obtain ⟨nonempty,free,found,-⟩ := (recorded_exact parser reads rules).mp member
    obtain ⟨-,-,found',top⟩ := (recorded_exact parser reads rules).mp member'
    cases front with
    | nil => exact plain ⟨one,nonempty,free,found,found',top⟩
    | cons c front =>
      have above : one ∈ parents '.' (c :: front ++ '.' :: one).tail := (mem_parents '.').mpr ⟨front,rfl⟩
      exact top one above (.inr ⟨nonempty,found⟩)

-- A list without hostnames that begin with a dot is compressed to a minimal one.
theorem undotted_minimal (reads : ReadsBlocking parser) (rules : List Text)
    (plain : ∀ p ∈ candidates parser rules, p.host.head? ≠ some '.') : Minimal parser rules := by
  apply (compress_minimal_exact parser reads rules).mpr
  rintro ⟨hostname,-,-,-,⟨p,member,same⟩,-⟩
  exact plain p member (by rw [same]; rfl)

end Minimality

section DottedRuns

-- `||.com^` stays beside `||com^`.
theorem leading_dot_kept :
    ReadsBlocking basicParser ∧ ¬Minimal basicParser ["||com^".toList,"||.com^".toList] := by
  refine ⟨basicParser_reads,?_⟩
  rintro ⟨-,-,apart,-⟩
  have recorded : recorded basicParser ["||com^".toList,"||.com^".toList] = ["com".toList,".com".toList] := by decide
  rw [recorded] at apart
  exact apart "com".toList (by decide) ".com".toList (by decide) ⟨[],rfl⟩

theorem subdomain_minimal :
    Minimal basicParser ["0.0.0.0 www.example.org".toList,"||example.org^".toList] ↔
      ¬Dotted basicParser ["0.0.0.0 www.example.org".toList,"||example.org^".toList] :=
  compress_minimal_exact basicParser basicParser_reads _

end DottedRuns

end AdblockCompiler.Compress
