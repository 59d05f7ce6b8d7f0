import AdblockCompiler.PatternValidation

namespace AdblockCompiler.Validation
open JsText Rules

def Verdict.blames (verdict : Verdict) : Bool := verdict.errors.any (·.severity = .Error)

-- A verdict that refuses, names an error, unless the refusal is a silent one.
structure Explained (silent : Prop) (verdict : Verdict) : Prop where
  aloud : ¬silent → verdict.blames = !verdict.valid
  quietly : silent → verdict.valid = false ∧ verdict.blames = false

section Explanations

theorem passed_explained : Explained False ⟨true,[]⟩ := ⟨fun _ => rfl,False.elim⟩

theorem refused_explained (currentSourceName : Option Text) (type : ValidationErrorType) (ruleText message details : Text)
    (ast : Option AnyRule) (lineNumber : Nat) :
    Explained False (refused currentSourceName type ruleText message details ast lineNumber) := ⟨fun _ => rfl,False.elim⟩

theorem Explained.congr (explained : Explained e verdict) (same : silent ↔ e) : Explained silent verdict :=
  ⟨fun loud => explained.aloud (mt same.mpr loud),fun quiet => explained.quietly (same.mp quiet)⟩

theorem silent_explained (same : silent ↔ b = true) : Explained silent ⟨!b,[]⟩ := by
  cases b with
  | true => exact ⟨fun loud => absurd (same.mpr rfl) loud,fun _ => ⟨rfl,rfl⟩⟩
  | false => exact ⟨fun _ => rfl,fun quiet => (Bool.false_ne_true (same.mp quiet)).elim⟩

theorem either_explained [Decidable c] (first : c → Explained silent one) (second : ¬c → Explained silent other) :
    Explained silent (if c then one else other) := by
  split
  · next holds => exact first holds
  · next fails => exact second fails

end Explanations

-- The patterns that are refused without an error: a wildcard behind the first
-- separator, and anything but a bar behind the separator of a good host.
structure SilentPattern (v : Validator) (allowIp : Bool) (hasLimitModifier : Bool) (pattern : Text) : Prop where
  other : isRegex pattern = false
  plain : isPlain pattern = true
  ends : ∃ front tail, pattern = front ++ '^' :: tail ∧ '^' ∉ front ∧ '*' ∉ front ∧
    ('*' ∈ tail ∨ ∃ domain, front = anchored domain ∧ (domain = [] ∨ 3 ≤ domain.length ∧ accepted v allowIp hasLimitModifier domain = true) ∧
      tail ≠ [] ∧ tail.head? ≠ some '|')

section Patterns
variable (v : Validator) (allowIp : Bool) (currentSourceName : Option Text) (rule : NetworkRule) (hasLimitModifier : Bool)
  (ruleText : Text) (lineNumber : Nat)

theorem hostname_explained (hostname : Text) :
    Explained False (validateHostname v allowIp currentSourceName hostname ruleText hasLimitModifier lineNumber) := by
  unfold validateHostname
  refine either_explained (fun _ => refused_explained _ _ _ _ _ _ _) fun _ => ?_
  refine either_explained (fun _ => refused_explained _ _ _ _ _ _ _) fun _ => ?_
  exact either_explained (fun _ => refused_explained _ _ _ _ _ _ _) fun _ => passed_explained

-- The part of a silent refusal that depends on where the separator stands.
def SilentEnds (front tail : Text) : Prop :=
  '*' ∉ front ∧ ('*' ∈ tail ∨ ∃ domain, front = anchored domain ∧
    (domain = [] ∨ 3 ≤ domain.length ∧ accepted v allowIp hasLimitModifier domain = true) ∧ tail ≠ [] ∧ tail.head? ≠ some '|')

theorem silent_closed (other : isRegex rule.pattern = false) (plain : isPlain rule.pattern = true)
    (shape : rule.pattern = front ++ '^' :: tail) (absent : '^' ∉ front) :
    SilentPattern v allowIp hasLimitModifier rule.pattern ↔ SilentEnds v allowIp hasLimitModifier front tail := by
  constructor
  · intro silent
    obtain ⟨first,rest,same,none,ends⟩ := silent.ends
    obtain ⟨rfl,rfl⟩ := mark_unique absent none (shape.symm.trans same)
    exact ends
  · intro ends
    exact ⟨other,plain,front,tail,shape,absent,ends⟩

theorem silent_free (shape : rule.pattern = front ++ '^' :: tail) (free : startsWith rule.pattern ['|','|'] = false) :
    SilentEnds v allowIp hasLimitModifier front tail ↔ '*' ∉ front ∧ '*' ∈ tail := by
  constructor
  · rintro ⟨none,star | ⟨domain,rfl,-⟩⟩
    · exact ⟨none,star⟩
    · rw [shape] at free
      cases free
  · exact fun both => ⟨both.1,.inl both.2⟩

theorem silent_anchored (domain tail : Text) :
    SilentEnds v allowIp hasLimitModifier (anchored domain) tail ↔ '*' ∉ domain ∧ ('*' ∈ tail ∨
      (domain = [] ∨ 3 ≤ domain.length ∧ accepted v allowIp hasLimitModifier domain = true) ∧ tail ≠ [] ∧ tail.head? ≠ some '|') := by
  simp [SilentEnds,anchored]

theorem front_anchored (shape : rule.pattern = front ++ '^' :: tail) (bars : startsWith rule.pattern ['|','|'] = true) :
    ∃ domain, front = anchored domain := by
  obtain ⟨rest,same⟩ := startsWith_iff.mp bars
  rw [shape] at same
  match front with
  | [] => cases same
  | [_] => cases same
  | c :: d :: domain =>
    obtain ⟨rfl,more⟩ := List.cons.inj same
    obtain ⟨rfl,-⟩ := List.cons.inj more
    exact ⟨domain,rfl⟩

theorem closed_explained (other : isRegex rule.pattern = false) (plain : isPlain rule.pattern = true)
    (shape : rule.pattern = anchored domain ++ '^' :: tail) (absent : '^' ∉ anchored domain) :
    Explained (SilentEnds v allowIp hasLimitModifier (anchored domain) tail)
      (validatePattern v allowIp currentSourceName rule hasLimitModifier ruleText lineNumber) := by
  have whole : rule.pattern = blocking domain ++ tail := by
    rw [shape,blocking,List.append_assoc,List.singleton_append]
  rw [pattern_closed v allowIp currentSourceName rule hasLimitModifier ruleText lineNumber other plain whole (by simpa [anchored] using absent)]
  refine Explained.congr ?_ (silent_anchored v allowIp hasLimitModifier domain tail)
  refine either_explained (fun behind => ?_) fun inside => ?_
  · obtain ⟨none,star⟩ := Bool.and_eq_true_iff.mp behind
    exact ⟨fun loud => absurd ⟨of_decide_eq_true none,.inl (of_decide_eq_true star)⟩ loud,fun _ => ⟨rfl,rfl⟩⟩
  have free : '*' ∉ domain → '*' ∉ tail := by
    intro none star
    simp [none,star] at inside
  refine either_explained (fun short => ?_) fun long => ?_
  · refine (refused_explained _ _ _ _ _ _ _).congr ⟨?_,False.elim⟩
    rintro ⟨none,star | ⟨empty | ⟨size,-⟩,-⟩⟩
    · exact free none star
    · exact short.1 empty
    · omega
  refine either_explained (fun star => ?_) fun none => ?_
  · refine Explained.congr (e := False) ?_ ⟨fun silent => silent.1 star,False.elim⟩
    exact either_explained (fun _ => hostname_explained _ _ _ _ _ _ _) fun _ => passed_explained
  have size : domain = [] ∨ 3 ≤ domain.length := by rwa [not_and_or,not_not,Nat.not_lt] at long
  have host : Explained False (if domain ≠ [] then
      validateHostname v allowIp currentSourceName domain ruleText hasLimitModifier lineNumber else ⟨true,[]⟩) :=
    either_explained (fun _ => hostname_explained _ _ _ _ _ _ _) fun _ => passed_explained
  have good := host_accepted v allowIp currentSourceName hasLimitModifier ruleText lineNumber domain
  generalize (if domain ≠ [] then validateHostname v allowIp currentSourceName domain ruleText hasLimitModifier lineNumber
    else ⟨true,[]⟩) = verdict at host good
  have named := host.aloud id
  cases lets : verdict.valid with
  | true =>
    rw [lets] at good named
    dsimp only
    rw [lets,if_pos rfl]
    have fits : domain = [] ∨ 3 ≤ domain.length ∧ accepted v allowIp hasLimitModifier domain = true := by
      rcases good.mp rfl with empty | host
      · exact .inl empty
      · exact size.imp_right fun long => ⟨long,host⟩
    refine ⟨fun loud => named.trans (congrArg (!·) ?_),fun quiet => ⟨?_,named⟩⟩
    · by_contra behind
      simp only [Bool.or_eq_true,decide_eq_true_eq,not_or,eq_comm (a := true)] at behind
      exact loud ⟨none,.inr ⟨fits,behind⟩⟩
    · rcases quiet.2 with star | ⟨-,behind⟩
      · exact absurd star (free none)
      · simpa using behind
  | false =>
    rw [lets] at good
    dsimp only
    rw [lets,if_neg Bool.false_ne_true]
    refine host.congr ⟨?_,False.elim⟩
    rintro ⟨-,star | ⟨empty | ⟨-,host⟩,-⟩⟩
    · exact free none star
    · exact Bool.false_ne_true (good.mpr (.inl empty))
    · exact Bool.false_ne_true (good.mpr (.inr host))

theorem pattern_explained :
    Explained (SilentPattern v allowIp hasLimitModifier rule.pattern)
      (validatePattern v allowIp currentSourceName rule hasLimitModifier ruleText lineNumber) := by
  cases other : isRegex rule.pattern with
  | true =>
    rw [pattern_regex v allowIp currentSourceName rule hasLimitModifier ruleText lineNumber other]
    exact passed_explained.congr ⟨fun silent => Bool.false_ne_true (silent.other.symm.trans other),False.elim⟩
  | false =>
    cases plain : isPlain rule.pattern with
    | false =>
      rw [pattern_characters v allowIp currentSourceName rule hasLimitModifier ruleText lineNumber other plain]
      exact (refused_explained _ _ _ _ _ _ _).congr ⟨fun silent => Bool.false_ne_true (plain.symm.trans silent.plain),False.elim⟩
    | true =>
      by_cases caret : '^' ∈ rule.pattern
      · obtain ⟨front,tail,shape,absent⟩ := List.eq_append_cons_of_mem caret
        have silent := silent_closed v allowIp rule hasLimitModifier other plain shape absent
        cases bars : startsWith rule.pattern ['|','|'] with
        | false =>
          rw [pattern_free v allowIp currentSourceName rule hasLimitModifier ruleText lineNumber other plain shape absent bars]
          refine silent_explained (silent.trans ((silent_free v allowIp rule hasLimitModifier shape bars).trans ?_))
          rw [Bool.and_eq_true,decide_eq_true_eq,decide_eq_true_eq]
        | true =>
          obtain ⟨domain,rfl⟩ := front_anchored rule shape bars
          exact (closed_explained v allowIp currentSourceName rule hasLimitModifier ruleText lineNumber other plain shape absent).congr silent
      · rw [pattern_open v allowIp currentSourceName rule hasLimitModifier ruleText lineNumber other plain caret]
        refine Explained.congr (e := False) ?_ ⟨fun silent => ?_,False.elim⟩
        · exact either_explained (fun _ => refused_explained _ _ _ _ _ _ _) fun _ => passed_explained
        · obtain ⟨front,tail,shape,-⟩ := silent.ends
          rw [shape] at caret
          simp at caret

end Patterns

-- The rules whose refusal no error tells of.
inductive SilentRule (v : Validator) (allowIp : Bool) : AnyRule → Prop where
  | unknown : SilentRule v allowIp .unknown
  | host : SilentRule v allowIp (.host [])
  | network (known : supported rule = true) (pattern : SilentPattern v allowIp (limited rule) rule.pattern) :
      SilentRule v allowIp (.network rule)

section Rules
variable (v : Validator) (allowIp : Bool) (currentSourceName : Option Text) (ruleText : Text) (lineNumber : Nat)

theorem hostnames_explained (hostnames : List Text) :
    Explained False (validateHostnames v allowIp currentSourceName ruleText lineNumber hostnames) := by
  induction hostnames with
  | nil => exact passed_explained
  | cons hostname rest ih =>
    unfold validateHostnames
    exact either_explained (fun _ => ih) fun _ => hostname_explained v allowIp currentSourceName false ruleText lineNumber hostname

theorem host_explained (hostnames : List Text) :
    Explained (hostnames = []) (validateHostRule v allowIp currentSourceName hostnames ruleText lineNumber) := by
  unfold validateHostRule
  split
  · next empty => exact ⟨fun loud => absurd empty loud,fun _ => ⟨rfl,rfl⟩⟩
  · next some_ => exact (hostnames_explained v allowIp currentSourceName ruleText lineNumber hostnames).congr ⟨some_,False.elim⟩

theorem network_explained (rule : NetworkRule) :
    Explained (supported rule = true ∧ SilentPattern v allowIp (limited rule) rule.pattern)
      (validateNetworkRule v allowIp currentSourceName rule ruleText lineNumber) := by
  cases known : supported rule with
  | false =>
    obtain ⟨mod,same⟩ := network_refused v allowIp currentSourceName rule ruleText lineNumber known
    rw [same]
    exact (refused_explained _ _ _ _ _ _ _).congr ⟨fun silent => Bool.false_ne_true silent.1,False.elim⟩
  | true =>
    obtain ⟨warnings,mild,same⟩ := network_supported v allowIp currentSourceName rule ruleText lineNumber known
    have pattern := pattern_explained v allowIp currentSourceName rule (limited rule) ruleText lineNumber
    have quiet : warnings.any (·.severity = .Error) = false := by
      apply List.any_eq_false.mpr
      intro warning member
      rw [mild warning member]
      decide
    rw [same]
    refine ⟨fun loud => ?_,fun silent => ⟨(pattern.quietly silent.2).1,?_⟩⟩
    · rw [← pattern.aloud fun silent => loud ⟨rfl,silent⟩,Verdict.blames,Verdict.blames,List.any_append,quiet,Bool.false_or]
    · rw [← (pattern.quietly silent.2).2,Verdict.blames,Verdict.blames,List.any_append,quiet,Bool.false_or]

def Silent (ast : Option AnyRule) : Prop := ∃ rule, ast = some rule ∧ SilentRule v allowIp rule

theorem rule_explained (filled : trim ruleText ≠ []) (ast : Option AnyRule) :
    Explained (Silent v allowIp ast) (isValidParsedRule v allowIp currentSourceName ast ruleText lineNumber) := by
  unfold isValidParsedRule
  rw [if_neg filled]
  cases ast with
  | none =>
    refine Explained.congr (e := False) ?_ ⟨?_,False.elim⟩
    · exact either_explained (fun _ => passed_explained) fun _ => refused_explained _ _ _ _ _ _ _
    · rintro ⟨rule,none,-⟩
      cases none
  | some rule =>
    have own : Silent v allowIp (some rule) ↔ SilentRule v allowIp rule := by simp [Silent]
    refine Explained.congr ?_ own
    cases rule with
    | empty => exact passed_explained.congr ⟨nofun,False.elim⟩
    | comment => exact passed_explained.congr ⟨nofun,False.elim⟩
    | invalid => exact (refused_explained _ _ _ _ _ _ _).congr ⟨nofun,False.elim⟩
    | cosmetic => exact (refused_explained _ _ _ _ _ _ _).congr ⟨nofun,False.elim⟩
    | unknown => exact ⟨fun loud => absurd .unknown loud,fun _ => ⟨rfl,rfl⟩⟩
    | network rule =>
      refine (network_explained v allowIp currentSourceName ruleText lineNumber rule).congr ⟨?_,fun both => .network both.1 both.2⟩
      rintro (_ | _ | ⟨known,pattern⟩)
      exact ⟨known,pattern⟩
    | host hostnames =>
      refine (host_explained v allowIp currentSourceName ruleText lineNumber hostnames).congr ⟨?_,?_⟩
      · rintro (_ | _ | _)
        rfl
      · rintro rfl
        exact .host

end Rules

section Reports
variable (v : Validator) (allowIp : Bool) (currentSourceName : Option Text) (rules : List Text)

-- The lines that are returned, with where they stood.
def survivors : List (Text × Nat) :=
  rules.zipIdx.filter fun line => stays v allowIp currentSourceName line (rules.zipIdx.drop (line.2+1))

def Tells (validation : IValidationReport) (line : Text × Nat) : Prop :=
  ∃ error ∈ validation.errors, error.severity = .Error ∧ error.lineNumber = line.2+1

structure Accounts (validation : IValidationReport) : Prop where
  removed : ∀ line ∈ rules.zipIdx, isRemark v line = false → line ∉ survivors v allowIp currentSourceName rules → Tells validation line
  kept : ∀ line ∈ survivors v allowIp currentSourceName rules, ¬Tells validation line
  total : validation.validRules+validation.invalidRules = validation.totalRules
  invalid : validation.invalidRules = (rules.zipIdx.filter fun line => line ∉ survivors v allowIp currentSourceName rules).length

def written : IValidationReport := report (sweep v allowIp currentSourceName rules) rules.length

theorem tells_exact (line : Text × Nat) (inside : line ∈ rules.zipIdx) :
    Tells (written v allowIp currentSourceName rules) line ↔ (checked v allowIp currentSourceName line).blames = true := by
  have errors : (written v allowIp currentSourceName rules).errors = _ := (swept_all v allowIp currentSourceName rules.zipIdx).errors
  unfold Tells
  rw [errors,Verdict.blames,List.any_eq_true]
  constructor
  · rintro ⟨error,member,severe,number⟩
    obtain ⟨other,there,found⟩ := List.mem_flatMap.mp member
    have named := (rule_names v allowIp currentSourceName other.1 (other.2+1) _ error found).2
    have index : other.2 = line.2 := by omega
    have first := List.mem_zipIdx_iff_getElem?.mp inside
    have second := List.mem_zipIdx_iff_getElem?.mp (List.mem_reverse.mp there)
    rw [index,first] at second
    have same : line = other := Prod.ext (Option.some.inj second) index.symm
    rw [same]
    exact ⟨error,found,decide_eq_true severe⟩
  · rintro ⟨error,found,severe⟩
    have named := (rule_names v allowIp currentSourceName line.1 (line.2+1) _ error found).2
    exact ⟨error,List.mem_flatMap.mpr ⟨line,List.mem_reverse.mpr inside,found⟩,of_decide_eq_true severe,named⟩

theorem filtered_survivors :
    (sweep v allowIp currentSourceName rules).filtered = (survivors v allowIp currentSourceName rules).map Prod.fst :=
  sweep_filtered v allowIp currentSourceName rules 0

theorem mem_survivors (inside : line ∈ rules.zipIdx) :
    line ∈ survivors v allowIp currentSourceName rules ↔
      stays v allowIp currentSourceName line (rules.zipIdx.drop (line.2+1)) = true := by
  rw [survivors,List.mem_filter]
  exact and_iff_right inside

theorem counts_split :
    (survivors v allowIp currentSourceName rules).length +
      (rules.zipIdx.filter fun line => line ∉ survivors v allowIp currentSourceName rules).length = rules.length := by
  have others : (rules.zipIdx.filter fun line => decide (line ∉ survivors v allowIp currentSourceName rules)) =
      rules.zipIdx.filter fun line => decide ¬stays v allowIp currentSourceName line (rules.zipIdx.drop (line.2+1)) = true := by
    apply List.filter_congr
    intro line inside
    exact decide_eq_decide.mpr (not_congr (mem_survivors v allowIp currentSourceName rules inside))
  rw [others,survivors,← List.countP_eq_length_filter,← List.countP_eq_length_filter,← List.length_eq_countP_add_countP,List.length_zipIdx]

theorem written_counts :
    (written v allowIp currentSourceName rules).validRules+(written v allowIp currentSourceName rules).invalidRules =
        (written v allowIp currentSourceName rules).totalRules ∧
      (written v allowIp currentSourceName rules).invalidRules =
        (rules.zipIdx.filter fun line => line ∉ survivors v allowIp currentSourceName rules).length := by
  have size : (sweep v allowIp currentSourceName rules).filtered.length = (survivors v allowIp currentSourceName rules).length := by
    rw [filtered_survivors,List.length_map]
  have split := counts_split v allowIp currentSourceName rules
  simp only [written,report,size]
  omega

theorem remark_blameless (remark : isRemark v line = true) : (checked v allowIp currentSourceName line).blames = false := by
  rw [remark_checked v allowIp currentSourceName remark]
  rfl

theorem own_filled (own : isRemark v line = false) : trim line.1 ≠ [] := by
  intro blank
  unfold isRemark isCommentOrEmpty at own
  rw [if_pos blank] at own
  cases own

theorem own_explained (own : isRemark v line = false) :
    Explained (Silent v allowIp (v.parse (trim line.1))) (checked v allowIp currentSourceName line) :=
  rule_explained v allowIp currentSourceName line.1 (line.2+1) (own_filled v own) _

theorem own_stays (own : isRemark v line = false) (after : List (Text × Nat)) :
    stays v allowIp currentSourceName line after = (checked v allowIp currentSourceName line).valid := by
  rw [stays,own,if_neg Bool.false_ne_true]

theorem silent_own (filled : trim ruleText ≠ []) (silent : Silent v allowIp (v.parse (trim ruleText))) (i : Nat) :
    isRemark v (ruleText,i) = false := by
  obtain ⟨rule,parsed,quiet⟩ := silent
  unfold isRemark isCommentOrEmpty
  rw [if_neg filled,parsed]
  cases quiet <;> rfl

-- The report tells of every removed rule exactly when none of the rules is
-- refused in silence; of kept lines it never tells, and it always counts right.
theorem report_accounts_exact (this : ValidateTransformation) :
    (executeSync v allowIp this rules).2 = (survivors v allowIp this.currentSourceName rules).map Prod.fst ∧
      ∃ validation, (executeSync v allowIp this rules).1.lastValidationReport = some validation ∧
        (Accounts v allowIp this.currentSourceName rules validation ↔
          ∀ ruleText ∈ rules, trim ruleText ≠ [] → ¬Silent v allowIp (v.parse (trim ruleText))) := by
  refine ⟨filtered_survivors v allowIp this.currentSourceName rules,written v allowIp this.currentSourceName rules,rfl,?_,?_⟩
  · intro accounts ruleText member filled silent
    obtain ⟨i,place⟩ := List.mem_iff_getElem?.mp member
    have inside : (ruleText,i) ∈ rules.zipIdx := List.mem_zipIdx_iff_getElem?.mpr place
    have own := silent_own v allowIp filled silent i
    obtain ⟨refused_,blameless⟩ := (own_explained v allowIp this.currentSourceName own).quietly silent
    have removed : (ruleText,i) ∉ survivors v allowIp this.currentSourceName rules := by
      rw [mem_survivors v allowIp this.currentSourceName rules inside,own_stays v allowIp this.currentSourceName own,refused_]
      exact Bool.false_ne_true
    have tells := accounts.removed (ruleText,i) inside own removed
    rw [tells_exact v allowIp this.currentSourceName rules _ inside,blameless] at tells
    cases tells
  · intro loud
    have said (line : Text × Nat) (inside : line ∈ rules.zipIdx) (own : isRemark v line = false) :
        (checked v allowIp this.currentSourceName line).blames = !(checked v allowIp this.currentSourceName line).valid :=
      (own_explained v allowIp this.currentSourceName own).aloud
        (loud line.1 (List.mem_of_getElem? (List.mem_zipIdx_iff_getElem?.mp inside)) (own_filled v own))
    obtain ⟨total,invalid⟩ := written_counts v allowIp this.currentSourceName rules
    refine ⟨?_,?_,total,invalid⟩
    · intro line inside own removed
      rw [mem_survivors v allowIp this.currentSourceName rules inside,own_stays v allowIp this.currentSourceName own,Bool.not_eq_true] at removed
      rw [tells_exact v allowIp this.currentSourceName rules line inside,said line inside own,removed]
      rfl
    · intro line kept
      have inside := (List.mem_filter.mp kept).1
      rw [tells_exact v allowIp this.currentSourceName rules line inside]
      cases remark : isRemark v line with
      | true =>
        rw [remark_blameless v allowIp this.currentSourceName remark]
        exact Bool.false_ne_true
      | false =>
        rw [mem_survivors v allowIp this.currentSourceName rules inside,own_stays v allowIp this.currentSourceName remark] at kept
        rw [said line inside remark,kept]
        exact Bool.false_ne_true

-- A wildcard behind the separator.
theorem wildcard_unreported :
    ∃ validation, (executeSync basicValidator false {} ["||example.org^*".toList]).1.lastValidationReport = some validation ∧
      ¬Accounts basicValidator false none ["||example.org^*".toList] validation := by
  refine ⟨written basicValidator false none ["||example.org^*".toList],rfl,fun accounts => ?_⟩
  have inside : ("||example.org^*".toList,0) ∈ ["||example.org^*".toList].zipIdx := List.mem_singleton_self _
  have removed : ("||example.org^*".toList,0) ∉ survivors basicValidator false none ["||example.org^*".toList] := by decide +kernel
  obtain ⟨error,member,-⟩ := accounts.removed _ inside (by decide) removed
  have none : (written basicValidator false none ["||example.org^*".toList]).errors = [] := by decide +kernel
  rw [none] at member
  cases member

end Reports

end AdblockCompiler.Validation
