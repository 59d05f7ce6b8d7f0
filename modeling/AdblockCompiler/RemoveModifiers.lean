import AdblockCompiler.Deduplicate

namespace AdblockCompiler.RemoveModifiers
open JsText Rules
open Deduplicate (isEmpty)

def MODIFIERS_TO_REMOVE : List Text :=
  ["third-party","3p","all","document","doc","popup","network"].map String.toList

def named (name : Text) (option : IRuleModifier) : Bool := option.name = name || option.name = '~' :: name

-- RuleUtils.removeModifier, and whether it found one.
def removeModifier (ruleProps : IAdblockRule) (name : Text) : IAdblockRule × Bool :=
  match ruleProps.options with
  | none => (ruleProps,false)
  | some options => ({ ruleProps with options := some (options.filter fun option => !named name option) },options.any (named name))

section Transformation
variable (parser : RuleParser)

-- Nothing is caught here: AGTreeParser.parse does not throw.
def rewritten (rawRuleText : Text) : Text :=
  let ruleText := trim rawRuleText
  if isEmpty ruleText || isComment parser ruleText then ruleText
  else
    let props := loadAdblockRuleProperties parser ruleText
    adblockRuleToString (MODIFIERS_TO_REMOVE.foldl (fun props modifier => (removeModifier props modifier).1) props)

def executeSync (rules : List Text) : List Text := rules.map (rewritten parser)

def listed (mod : Modifier) : Bool := mod.name ∈ MODIFIERS_TO_REMOVE

def remaining (rule : NetworkRule) : List Modifier := rule.modifiers.filter fun mod => !listed mod

-- What the text put out for a line has to be.
structure Removed (line out : Text) : Prop where
  denotes : ∀ rule, AGTreeParser.parse parser line = some (.network rule) →
    AGTreeParser.parse parser out = some (.network { rule with modifiers := remaining rule })
  unlisted : (∀ rule, AGTreeParser.parse parser line = some (.network rule) → ∀ mod ∈ rule.modifiers, listed mod = false) →
    out = trim line

def RemovesListed (rules : List Text) : Prop :=
  List.Forall₂ (Removed parser) rules (executeSync parser rules) ∧
    executeSync parser (executeSync parser rules) = executeSync parser rules

end Transformation

-- The text of a rule: its parts with their marks and nothing between them.
def modifierText (mod : Modifier) : Text :=
  (if mod.exception then ['~'] else []) ++ mod.name ++ mod.value.elim [] ('=' :: ·)

def modifiersText (mark : Char) : List Modifier → Text
  | [] => []
  | mod :: more => mark :: modifierText mod ++ modifiersText ',' more

def spell (rule : NetworkRule) : Text :=
  (if rule.exception then "@@".toList else []) ++ rule.pattern ++ modifiersText '$' rule.modifiers

def modifierSize (mod : Modifier) : Nat :=
  (if mod.exception then 1 else 0) + mod.name.length + mod.value.elim 0 fun value => value.length+1

def size (rule : NetworkRule) : Nat :=
  (if rule.exception then 2 else 0) + rule.pattern.length + (rule.modifiers.map fun mod => modifierSize mod+1).sum

-- A `$` that is not escaped and not before the `/` of a regular expression.
def hasSeparator : Text → Bool
  | '\\' :: '$' :: rest => hasSeparator rest
  | '$' :: '/' :: rest => hasSeparator rest
  | '$' :: _ => true
  | _ :: rest => hasSeparator rest
  | [] => false

-- No mark of the text is escaped by the part before it, and its `$` is the
-- separator.
def marked (pattern : Text) : List Modifier → Bool
  | [] => !hasSeparator pattern
  | first :: more =>
    !endsWith pattern ['\\'] && !startsWith (modifierText first) ['/'] &&
      ((first :: more).dropLast.all fun mod => !endsWith (modifierText mod) ['\\']) &&
      (first :: more).all fun mod => mod.value.isNone || !endsWith mod.name ['\\']

-- What the transformation relies on in RuleParser.parse: an empty text is no
-- network rule, a leading `~` negates, the parts of a rule stand in its text in
-- their order, and a part reads as it is where its marks do.
structure Reads (parser : RuleParser) : Prop where
  empty : ∀ rule, AGTreeParser.parse parser [] ≠ some (.network rule)
  negated : ∀ text rule, AGTreeParser.parse parser text = some (.network rule) →
    ∀ mod ∈ rule.modifiers, mod.exception = false → mod.name.head? ≠ some '~'
  ordered : ∀ text rule, AGTreeParser.parse parser text = some (.network rule) → (spell rule).Sublist (trim text)
  spelled : ∀ text rule kept other, AGTreeParser.parse parser text = some (.network rule) → kept.Sublist rule.modifiers →
    AGTreeParser.parse parser (spell { rule with modifiers := kept }) = some (.network other) →
    (other = { rule with modifiers := kept } ↔ marked rule.pattern kept = true)

-- When the text put out for a line of a network rule is right.
def Sound (parser : RuleParser) (line : Text) (rule : NetworkRule) : Prop :=
  (∀ mod ∈ remaining rule, mod.value ≠ some []) ∧
    if remaining rule = rule.modifiers then (trim line).length = size rule
    else marked rule.pattern (remaining rule) = true ∧
      ∃ other, AGTreeParser.parse parser (spell { rule with modifiers := remaining rule }) = some (.network other)

section Removing

-- Removing one name after the other leaves the options that answer to none.
theorem remove_all (names : List Text) (ruleProps : IAdblockRule) :
    names.foldl (fun props name => (removeModifier props name).1) ruleProps =
      { ruleProps with options := ruleProps.options.map (List.filter fun option => names.all fun name => !named name option) } := by
  induction names generalizing ruleProps with
  | nil =>
    obtain ⟨ruleText,pattern,whitelist,options,hostname⟩ := ruleProps
    cases options <;> simp
  | cons name names ih =>
    rw [List.foldl_cons,ih]
    cases options : ruleProps.options with
    | none => simp [removeModifier,options]
    | some options' => simp [removeModifier,options,List.filter_filter,Bool.and_comm]

theorem listed_option {mod : Modifier} (negated : mod.exception = false → mod.name.head? ≠ some '~') :
    (MODIFIERS_TO_REMOVE.all fun name => !named name (optionOf mod)) = !listed mod := by
  have plain : ∀ name ∈ MODIFIERS_TO_REMOVE, name.head? ≠ some '~' := by decide
  have same : ∀ name ∈ MODIFIERS_TO_REMOVE, named name (optionOf mod) = decide (mod.name = name) := by
    intro name member
    cases exception : mod.exception with
    | true =>
      have differs : '~' :: mod.name ≠ name := fun equal => plain name member (equal ▸ rfl)
      simp [named,optionOf,exception,differs]
    | false =>
      have differs : mod.name ≠ '~' :: name := fun equal => negated exception (equal ▸ rfl)
      simp [named,optionOf,exception,differs]
  rw [listed,Bool.eq_iff_iff,List.all_eq_true,Bool.not_eq_true',decide_eq_false_iff_not]
  constructor
  · intro none member
    have answer := none mod.name member
    rw [same mod.name member] at answer
    simp at answer
  · intro absent name member
    rw [same name member]
    simp only [Bool.not_eq_true',decide_eq_false_iff_not]
    exact fun equal => absent (equal ▸ member)

end Removing

section Spelling

-- A modifier as it is printed: an empty value is left out.
def printed (mod : Modifier) : Modifier := if mod.value = some [] then { mod with value := none } else mod

theorem printed_text (mod : Modifier) : optionText (optionOf mod) = modifierText (printed mod) := by
  obtain ⟨name,value,exception⟩ := mod
  cases exception <;> rcases value with _ | _ | ⟨c,value⟩ <;> simp [optionText,optionOf,printed,modifierText]

theorem options_text (mark : Char) (first : Modifier) (more : List Modifier) :
    mark :: [','].intercalate ((first :: more).map fun mod => optionText (optionOf mod)) =
      modifiersText mark ((first :: more).map printed) := by
  induction more generalizing mark first with
  | nil => simp [modifiersText,printed_text]
  | cons next more ih =>
    rw [List.map_cons,join_cons (by simp),ih ',' next,printed_text]
    simp [modifiersText]

theorem string_spells (kept : List Modifier) (props : IAdblockRule) (some_ : props.options.getD [] = kept.map optionOf) :
    adblockRuleToString props = spell ⟨props.pattern,props.whitelist,kept.map printed⟩ := by
  unfold adblockRuleToString spell
  congr 1
  cases options : props.options with
  | none =>
    rw [options,Option.getD_none] at some_
    obtain rfl := List.map_eq_nil_iff.mp some_.symm
    rfl
  | some options' =>
    rw [options,Option.getD_some] at some_
    subst some_
    cases kept with
    | nil => rfl
    | cons first more => exact (congrArg (fun texts => '$' :: [','].intercalate texts) List.map_map).trans (options_text '$' first more)

theorem modifier_length (mod : Modifier) : (modifierText mod).length = modifierSize mod := by
  obtain ⟨name,value,exception⟩ := mod
  cases exception <;> cases value <;> simp [modifierText,modifierSize] <;> omega

theorem modifiers_length (mark : Char) (mods : List Modifier) :
    (modifiersText mark mods).length = (mods.map fun mod => modifierSize mod+1).sum := by
  induction mods generalizing mark with
  | nil => rfl
  | cons mod more ih => simp [modifiersText,modifier_length,ih]; omega

theorem spell_length (rule : NetworkRule) : (spell rule).length = size rule := by
  rw [spell,List.length_append,List.length_append,modifiers_length,size]
  cases rule.exception <;> rfl

theorem printed_size (mod : Modifier) : modifierSize (printed mod) ≤ modifierSize mod ∧
    (modifierSize mod ≤ modifierSize (printed mod) → mod.value ≠ some []) := by
  unfold printed
  split
  · next empty => simp [modifierSize,empty]
  · next other => exact ⟨Nat.le_refl _,fun _ => other⟩

-- Printing loses nothing only where no value is empty.
theorem printed_sum (mods : List Modifier) :
    ((mods.map printed).map fun mod => modifierSize mod+1).sum ≤ (mods.map fun mod => modifierSize mod+1).sum ∧
      ((mods.map fun mod => modifierSize mod+1).sum ≤ ((mods.map printed).map fun mod => modifierSize mod+1).sum →
        ∀ mod ∈ mods, mod.value ≠ some []) := by
  induction mods with
  | nil => exact ⟨Nat.le_refl _,fun _ _ member => nomatch member⟩
  | cons mod more ih =>
    obtain ⟨below,own⟩ := printed_size mod
    obtain ⟨under,rest⟩ := ih
    simp only [List.map_cons,List.sum_cons]
    refine ⟨by omega,?_⟩
    intro whole
    exact List.forall_mem_cons.mpr ⟨own (by omega),rest (by omega)⟩

theorem printed_whole (rule : NetworkRule) (whole : size rule ≤ size { rule with modifiers := rule.modifiers.map printed }) :
    ∀ mod ∈ rule.modifiers, mod.value ≠ some [] := by
  unfold size at whole
  exact (printed_sum rule.modifiers).2 (by simpa using whole)

theorem printed_filled {mods : List Modifier} (filled : ∀ mod ∈ mods, mod.value ≠ some []) : mods.map printed = mods := by
  conv_rhs => rw [← List.map_id mods]
  exact List.map_congr_left fun mod member => if_neg (filled mod member)

theorem trim_sublist (text : Text) : (trim text).Sublist text :=
  (List.rdropWhile_prefix isSpace _).sublist.trans (List.dropWhile_sublist isSpace)

end Spelling

section Lines
variable {parser : RuleParser}

theorem rewritten_network (reads : Reads parser) (network : AGTreeParser.parse parser line = some (.network rule)) :
    rewritten parser line = spell { rule with modifiers := (remaining rule).map printed } := by
  have filled : isEmpty (trim line) = false := by
    simp only [isEmpty,trim_trim,decide_eq_false_iff_not]
    intro empty
    rw [AGTreeParser.parse,List.eq_nil_of_length_eq_zero empty] at network
    exact reads.empty rule network
  have own : isComment parser (trim line) = false := by simp [isComment,network]
  have options : ((loadAdblockRuleProperties parser (trim line)).options.map (List.filter fun option =>
      MODIFIERS_TO_REMOVE.all fun name => !named name option)).getD [] = (remaining rule).map optionOf := by
    have each : ∀ mod ∈ rule.modifiers, (MODIFIERS_TO_REMOVE.all fun name => !named name (optionOf mod)) = !listed mod :=
      fun mod member => listed_option (reads.negated line rule network mod member)
    simp only [loadAdblockRuleProperties,parse_trim,network]
    by_cases none : rule.modifiers = []
    · simp [none,remaining]
    · simp only [none,if_false,Option.map_some,Option.getD_some,List.filter_map,remaining]
      exact congrArg (List.map optionOf) (List.filter_congr each)
  simp only [rewritten,filled,own,Bool.or_self,Bool.false_eq_true,if_false,remove_all]
  rw [string_spells (remaining rule) _ options]
  simp [loadAdblockRuleProperties,network]

theorem rewritten_other (other : ∀ rule, AGTreeParser.parse parser line ≠ some (.network rule)) :
    rewritten parser line = trim line := by
  unfold rewritten
  dsimp only
  split
  · rfl
  · rw [remove_all]
    have fallback : loadAdblockRuleProperties parser (trim line) =
        { ruleText := trim line
          pattern := if startsWith (trim line) "@@".toList then (trim line).drop 2 else trim line
          whitelist := startsWith (trim line) "@@".toList
          options := none
          hostname := none } := by
      unfold loadAdblockRuleProperties
      split
      · next rule network =>
        rw [parse_trim,parse_trim] at network
        exact absurd network (other rule)
      · rfl
    rw [fallback]
    cases exception : startsWith (trim line) "@@".toList with
    | false => simp [adblockRuleToString]
    | true =>
      obtain ⟨rest,shape⟩ := startsWith_iff.mp exception
      simp [adblockRuleToString,shape]

theorem removed_other (other : ∀ rule, AGTreeParser.parse parser line ≠ some (.network rule)) :
    Removed parser line (rewritten parser line) :=
  ⟨fun rule network => absurd network (other rule),fun _ => rewritten_other other⟩

theorem remaining_all (none : ∀ mod ∈ rule.modifiers, listed mod = false) : remaining rule = rule.modifiers :=
  List.filter_eq_self.mpr fun mod member => by simp [none mod member]

theorem remaining_twice (rule : NetworkRule) : remaining { rule with modifiers := remaining rule } = remaining rule := by
  simp [remaining]

-- A text that denotes what is left of a rule is long enough for its parts.
theorem filled_of_denotes (reads : Reads parser) (network : AGTreeParser.parse parser line = some (.network rule))
    (removed : Removed parser line (rewritten parser line)) : ∀ mod ∈ remaining rule, mod.value ≠ some [] := by
  have inside := (reads.ordered _ _ (removed.denotes rule network)).trans (trim_sublist _)
  have room := inside.length_le
  rw [rewritten_network reads network,spell_length,spell_length] at room
  exact printed_whole { rule with modifiers := remaining rule } room

theorem removed_exact (reads : Reads parser) (network : AGTreeParser.parse parser line = some (.network rule)) :
    Removed parser line (rewritten parser line) ↔ Sound parser line rule := by
  have out := rewritten_network reads network
  constructor
  · intro removed
    have filled := filled_of_denotes reads network removed
    rw [printed_filled filled] at out
    refine ⟨filled,?_⟩
    split
    · next all =>
      have none : ∀ mod ∈ rule.modifiers, listed mod = false := fun mod member => by
        simpa using List.filter_eq_self.mp all mod member
      have same : rewritten parser line = trim line := removed.unlisted fun other parsed => by
        obtain rfl : rule = other := by simpa [network] using parsed
        exact none
      rw [← same,out,spell_length,all]
    · have denotes := removed.denotes rule network
      rw [out] at denotes
      exact ⟨(reads.spelled line rule _ _ network List.filter_sublist denotes).mp rfl,_,denotes⟩
  · rintro ⟨filled,right⟩
    rw [printed_filled filled] at out
    split at right
    · next all =>
      have whole : { rule with modifiers := remaining rule } = rule := by rw [all]
      rw [whole] at out
      have same : spell rule = trim line :=
        (reads.ordered line rule network).eq_of_length ((spell_length rule).trans right.symm)
      rw [out,same]
      refine ⟨?_,fun _ => rfl⟩
      intro other parsed
      obtain rfl : rule = other := by simpa [network] using parsed
      rw [parse_trim,network,whole]
    · next some_ =>
      obtain ⟨marks,other,printed⟩ := right
      obtain rfl := (reads.spelled line rule _ other network List.filter_sublist printed).mpr marks
      rw [out]
      refine ⟨?_,?_⟩
      · intro other parsed
        obtain rfl : rule = other := by simpa [network] using parsed
        exact printed
      · intro none
        exact absurd (remaining_all (none rule network)) some_

theorem rewritten_twice (reads : Reads parser) (removed : Removed parser line (rewritten parser line)) :
    rewritten parser (rewritten parser line) = rewritten parser line := by
  by_cases network : ∃ rule, AGTreeParser.parse parser line = some (.network rule)
  · obtain ⟨rule,network⟩ := network
    rw [rewritten_network reads (removed.denotes rule network),remaining_twice,rewritten_network reads network]
  · have other : ∀ rule, AGTreeParser.parse parser line ≠ some (.network rule) := fun rule parsed => network ⟨rule,parsed⟩
    have again : ∀ rule, AGTreeParser.parse parser (trim line) ≠ some (.network rule) := by simpa using other
    rw [rewritten_other other,rewritten_other again,trim_trim]

theorem modifiers_exact (reads : Reads parser) (rules : List Text) :
    RemovesListed parser rules ↔
      ∀ line ∈ rules, ∀ rule, AGTreeParser.parse parser line = some (.network rule) → Sound parser line rule := by
  have lines : List.Forall₂ (Removed parser) rules (executeSync parser rules) ↔
      ∀ line ∈ rules, Removed parser line (rewritten parser line) := by
    rw [executeSync,List.forall₂_map_right_iff,List.forall₂_same]
  rw [RemovesListed,lines]
  constructor
  · rintro ⟨removed,-⟩ line member rule network
    exact (removed_exact reads network).mp (removed line member)
  · intro sound
    have removed : ∀ line ∈ rules, Removed parser line (rewritten parser line) := by
      intro line member
      by_cases network : ∃ rule, AGTreeParser.parse parser line = some (.network rule)
      · obtain ⟨rule,network⟩ := network
        exact (removed_exact reads network).mpr (sound line member rule network)
      · exact removed_other fun rule parsed => network ⟨rule,parsed⟩
    have twice : ∀ line ∈ rules, rewritten parser (rewritten parser line) = rewritten parser line :=
      fun line member => rewritten_twice reads (removed line member)
    refine ⟨removed,?_⟩
    simp only [executeSync,List.map_map,List.map_inj_left,Function.comp_apply]
    exact twice

end Lines

section Tables
variable (table : List (Text × NetworkRule))

-- A parser that reads comments and the network rules of a table, for concrete
-- runs.
def tableParser : RuleParser := fun text =>
  if startsWith text ['!'] then some .comment else (table.find? (·.1 = text)).map fun entry => .network entry.2

def Tabled : Prop :=
  ∀ entry ∈ table, entry.1 ≠ [] ∧
    (∀ mod ∈ entry.2.modifiers, mod.exception = false → mod.name.head? ≠ some '~') ∧ (spell entry.2).Sublist entry.1 ∧
    ∀ kept ∈ entry.2.modifiers.sublists, ∀ other ∈ table, other.1 = trim (spell { entry.2 with modifiers := kept }) →
      (other.2 = { entry.2 with modifiers := kept } ↔ marked entry.2.pattern kept = true)

instance : Decidable (Tabled table) := inferInstanceAs (Decidable (∀ entry ∈ table, _))

variable {table}

theorem table_member (network : AGTreeParser.parse (tableParser table) text = some (.network rule)) : (trim text,rule) ∈ table := by
  unfold AGTreeParser.parse tableParser at network
  split at network
  · cases network
  obtain ⟨entry,found,same⟩ := Option.map_eq_some_iff.mp network
  have key : entry.1 = trim text := by simpa using List.find?_some found
  have member := List.mem_of_find?_eq_some found
  cases same
  exact key ▸ member

theorem table_reads (tabled : Tabled table) : Reads (tableParser table) where
  empty _ network := (tabled _ (table_member network)).1 rfl
  negated _ _ network := (tabled _ (table_member network)).2.1
  ordered _ _ network := (tabled _ (table_member network)).2.2.1
  spelled _ _ kept _ network inside spelled :=
    (tabled _ (table_member network)).2.2.2 kept (List.mem_sublists.mpr inside) _ (table_member spelled) rfl

end Tables

section Runs

def important : NetworkRule := ⟨"||a.org^".toList,true,[⟨"important".toList,none,false⟩]⟩
def popup : NetworkRule := { important with modifiers := ⟨"popup".toList,none,false⟩ :: important.modifiers }

def popupRules : List (Text × NetworkRule) :=
  [("@@||a.org^$popup,important".toList,popup),("@@||a.org^$important".toList,important)]

theorem popup_removed : RemovesListed (tableParser popupRules) ["@@||a.org^$popup,important".toList,"! popup".toList] := by
  apply (modifiers_exact (table_reads (by decide +kernel)) _).mpr
  intro line member rule network
  rcases List.mem_pair.mp member with rfl | rfl
  · have parsed : AGTreeParser.parse (tableParser popupRules) "@@||a.org^$popup,important".toList = some (.network popup) := by decide
    cases parsed.symm.trans network
    refine ⟨by decide,?_⟩
    rw [if_neg (by decide)]
    exact ⟨by decide,important,by decide⟩
  · have remark : AGTreeParser.parse (tableParser popupRules) "! popup".toList = some .comment := by decide
    exact nomatch remark.symm.trans network

-- Without `$popup` the `$` of the pattern becomes the separator, and the next
-- run takes away what was a part of the pattern.
def dollarRules : List (Text × NetworkRule) :=
  [("||a.org/x$doc$popup".toList,⟨"||a.org/x$doc".toList,false,[⟨"popup".toList,none,false⟩]⟩),
    ("||a.org/x$doc".toList,⟨"||a.org/x".toList,false,[⟨"doc".toList,none,false⟩]⟩),
    ("||a.org/x".toList,⟨"||a.org/x".toList,false,[]⟩)]

theorem pattern_cut :
    Reads (tableParser dollarRules) ∧ ¬ RemovesListed (tableParser dollarRules) ["||a.org/x$doc$popup".toList] := by
  refine ⟨table_reads (by decide +kernel),?_⟩
  rintro ⟨-,again⟩
  exact absurd again (by decide)

end Runs

end AdblockCompiler.RemoveModifiers
