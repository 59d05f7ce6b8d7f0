import AdblockCompiler.CleanedRules
import AdblockCompiler.HeaderParsing
import AdblockCompiler.HeaderStripping

-- Which rules a compiled list states, from the documents of its sources to the
-- list with its headers and its checksum.
namespace AdblockCompiler.CompiledRules
open JsText Rules Config Pipeline Header Compilers LineTransformations SecondPass CleanedRules
open Rules (isComment)
open Passes (through)

-- The text of a line as the transformations leave it.
def written (types : List TransformationType) (line : Text) : Text :=
  if .TrimLines ∈ types then StringUtils.trim line else line

theorem trim_written (types : List TransformationType) (line : Text) : trim (written types line) = trim line := by
  unfold written
  split
  · exact trim_trimmed_blanks line
  · rfl

theorem written_cons (type : TransformationType) (types : List TransformationType) (line : Text) :
    written types (written [type] line) = written (type :: types) line := by
  by_cases own : type = .TrimLines
  · subst own
    by_cases again : TransformationType.TrimLines ∈ types
    · simp [written,again,trim_again]
    · simp [written,again]
  · simp [written,Ne.symm own]

theorem written_ordered (types : List TransformationType) (line : Text) : written (getOrderedTransformations types) line = written types line := by
  simp [written,mem_ordered]

-- A line that states a rule.
structure Ruled (parser : RuleParser) (line : Text) : Prop where
  some : trim line ≠ []
  rule : isComment parser (trim line) = false

theorem ruled_trim (same : trim one = trim other) (ruled : Ruled parser one) : Ruled parser other :=
  ⟨same ▸ ruled.some,same ▸ ruled.rule⟩

section Lines
variable {validator : Validation.Validator} {parser : RuleParser} {exempts : Text → Bool} {newUrl : Text → Option Text}

theorem pass_written (agrees : Agrees validator parser) (cleans : type ∈ stating) (rules : List Text) (ruled : Ruled parser line) :
    line ∈ pass validator parser exempts newUrl type rules ↔
      ∃ original ∈ rules, written [type] original = line ∧ accepts validator type (trim line) := by
  by_cases trims : type = .TrimLines
  · subst trims
    have lines : pass validator parser exempts newUrl .TrimLines rules = rules.map StringUtils.trim := rfl
    simp [lines,written,accepts]
  · rw [pass_lines agrees cleans trims rules ruled.some ruled.rule]
    simp [written,Ne.symm trims]

theorem passes_lines (agrees : Agrees validator parser) {types : List TransformationType} (cleans : ∀ type ∈ types, type ∈ stating)
    (rules : List Text) (ruled : Ruled parser line) :
    line ∈ through (pass validator parser exempts newUrl) types rules ↔
      ∃ original ∈ rules, written types original = line ∧ ∀ type ∈ types, accepts validator type (trim line) := by
  induction types generalizing rules with
  | nil => simp [through,written]
  | cons type types ih =>
    obtain ⟨own,others⟩ := List.forall_mem_cons.mp cleans
    rw [through,ih others]
    constructor
    · intro found
      obtain ⟨middle,member,rfl,accepted⟩ := found
      obtain ⟨original,inside,rfl,first⟩ := (pass_written agrees own rules (ruled_trim (trim_written types middle) ruled)).mp member
      refine ⟨original,inside,(written_cons type types original).symm,List.forall_mem_cons.mpr ⟨?_,accepted⟩⟩
      rw [trim_written]
      exact first
    · intro found
      obtain ⟨original,inside,rfl,accepted⟩ := found
      have same := (trim_written (type :: types) original).trans (trim_written [type] original).symm
      obtain ⟨first,rest⟩ := List.forall_mem_cons.mp accepted
      have taken : written [type] original ∈ pass validator parser exempts newUrl type rules :=
        (pass_written agrees own rules (ruled_trim same ruled)).mpr ⟨original,inside,rfl,same ▸ first⟩
      exact ⟨written [type] original,taken,written_cons type types original,rest⟩

end Lines

-- The parser knows no rule that starts with an exclamation mark.
def Bangs (parser : RuleParser) : Prop := ∀ text rule, parser ('!' :: text) = some rule → rule = .comment

section Comments
variable {parser : RuleParser}

theorem bang_comment (bangs : Bangs parser) (start : startsWith line ['!'] = true) : isComment parser (trim line) = true := by
  obtain ⟨rest,rfl⟩ := startsWith_iff.mp start
  have trimmed : trim ('!' :: rest) = '!' :: rest.rdropWhile isSpace := ends_first rfl rest
  have again : trim ('!' :: rest.rdropWhile isSpace) = '!' :: rest.rdropWhile isSpace := trimmed ▸ trim_trim ('!' :: rest)
  rw [List.singleton_append,trimmed,comment_looks,AGTreeParser.parse,again]
  cases parsed : parser ('!' :: rest.rdropWhile isSpace) with
  | none => simp [Validation.looksLikeComment,startsWith]
  | some rule =>
    obtain rfl := bangs _ rule parsed
    rfl

theorem bang_unruled (bangs : Bangs parser) (start : startsWith line ['!'] = true) : ¬Ruled parser line := by
  intro ruled
  have comment := bang_comment bangs start
  rw [ruled.rule] at comment
  cases comment

theorem ruled_content (bangs : Bangs parser) (ruled : Ruled parser line) : isContent line = true := by
  have plain : startsWith (trim line) ['!'] = false := by
    cases start : startsWith (trim line) ['!'] with
    | false => rfl
    | true => exact absurd (ruled_trim (trim_trim line).symm ruled) (bang_unruled bangs start)
  simp [isContent,ruled.some,plain]

-- Only comments are taken from the head of a document.
theorem mem_stripped (bangs : Bangs parser) (ruled : Ruled parser line) (document : List Text) :
    line ∈ stripUpstreamHeaders document ↔ line ∈ document := by
  obtain ⟨plain,some_⟩ := content_plain (ruled_content bangs ruled)
  have same : (line ∈ (stripUpstreamHeaders document).filter fun line => !isBare line) ↔
      line ∈ document.filter fun line => !isMetadataHeader line && !isBare line := by
    rw [strip_filter]
  simpa [List.mem_filter,plain,some_] using same

theorem sourceHeader_comments (source : Source) : ∀ line ∈ generateSourceHeader source, startsWith line ['!'] = true := by
  have bar : startsWith "!".toList ['!'] = true := by decide
  have named (text : Text) : startsWith ("! Source: ".toList ++ text) ['!'] = true := startsWith_iff.mpr ⟨_,rfl⟩
  have given : ∀ line ∈ whenGiven source.name "! Source name: ".toList, startsWith line ['!'] = true := by
    intro line member
    unfold whenGiven at member
    split at member
    · cases member
    · split at member
      · cases member
      · obtain rfl := List.mem_singleton.mp member
        exact startsWith_iff.mpr ⟨_,rfl⟩
  unfold generateSourceHeader
  simp only [List.forall_mem_append,List.forall_mem_cons,bar,named,List.not_mem_nil,false_imp_iff,implies_true,and_true,true_and]
  exact given

theorem mem_assembled (bangs : Bangs parser) (ruled : Ruled parser line) (r : Runtime) (now : Date) (configuration : Configuration)
    (finalList : List Text) : line ∈ assemble r now configuration finalList ↔ line ∈ finalList := by
  have header : line ∉ generateListHeader now configuration {} := fun member =>
    bang_unruled bangs (list_comments now none configuration line member) ruled
  have checksum (text : Text) : line ≠ "! Checksum: ".toList ++ text := by
    rintro rfl
    exact bang_unruled bangs (startsWith_iff.mpr ⟨_,rfl⟩) ruled
  have inserted (lines : List Text) (index : Nat) (text : Text) :
      line ∈ lines.take index ++ ["! Checksum: ".toList ++ text] ++ lines.drop index ↔ line ∈ lines := by
    have whole : line ∈ lines.take index ++ lines.drop index ↔ line ∈ lines := by rw [List.take_append_drop]
    rw [List.mem_append] at whole
    rw [List.mem_append,List.mem_append,List.mem_singleton,or_iff_left (checksum text)]
    exact whole
  have added : line ∈ assemble r now configuration finalList ↔ line ∈ generateListHeader now configuration {} ++ finalList :=
    inserted _ _ _
  rw [added,List.mem_append]
  exact or_iff_right header

end Comments

-- The two compilers, and what of the source and of the configuration each gives
-- to the stage of a source.
inductive Compiler where
  | filter | worker

section Compilers
variable (r : Runtime) (configuration : Configuration)

def Compiler.fetch (source : Source) : Compiler → Except Thrown (List Text)
  | .filter => download r source.source
  | .worker => WorkerCompiler.download r source

def Compiler.filterable (source : Source) : Compiler → Filterable
  | .filter => source.toFilterable
  | .worker => configuration.toFilterable

def Compiler.compileSource (source : Source) : Compiler → Except Failure (List Text)
  | .filter => SourceCompiler.compile r source
  | .worker => WorkerCompiler.compileSource r configuration source

def Compiler.compileWithMetrics (now : Date) : Compiler → Except Failure (List Text)
  | .filter => FilterCompiler.compileWithMetrics r now configuration
  | .worker => WorkerCompiler.compileWithMetrics r now configuration

def requested (source : Source) : List TransformationType := source.transformations.getD []

-- The patterns that a line of a document meets before its source is
-- transformed. A source without transformations is not filtered.
def Passes (compiler : Compiler) (source : Source) (original : Text) : Prop :=
  requested source ≠ [] → ∃ patterns, Prepares (pipeline r).filterService (compiler.filterable configuration source) patterns ∧
    patterns.Respects original

-- A line of a document that brings its rule into the list.
structure Admitted (validator : Validation.Validator) (compiler : Compiler) (source : Source) (patterns : Patterns)
    (original : Text) : Prop where
  own : Passes r configuration compiler source original
  shared : patterns.Respects (written (requested source) original)
  accepted : ∀ type ∈ requested source ++ configuration.transformations.getD [], accepts validator type (trim original)

end Compilers

section Results
variable {ε δ α β : Type}

theorem bind_settled {result : Except ε α} {next : α → Except ε β} (settled : result.bind next = .ok b) :
    ∃ a, result = .ok a ∧ next a = .ok b := by
  cases result with
  | error failure => cases settled
  | ok a => exact ⟨a,rfl,settled⟩

theorem map_settled {result : Except ε α} {f : α → β} (settled : result.map f = .ok b) : ∃ a, result = .ok a ∧ f a = b := by
  cases result with
  | error failure => cases settled
  | ok a => exact ⟨a,rfl,Except.ok.inj settled⟩

theorem mapError_settled {result : Except ε α} {f : ε → δ} (settled : result.mapError f = .ok a) : result = .ok a := by
  cases result with
  | error failure => cases settled
  | ok b => exact congrArg _ (Except.ok.inj settled)

theorem toOption_settled {result : Except ε α} (some_ : result.toOption = some a) : result = .ok a := by
  cases result with
  | error failure => cases some_
  | ok b => exact congrArg _ (Option.some.inj some_)

-- Each item has its result among them, and there are no others.
theorem mapM_settled {f : α → Except ε β} {items : List α} {results : List β} (settled : items.mapM f = .ok results) :
    (∀ item ∈ items, ∃ b ∈ results, f item = .ok b) ∧ ∀ b ∈ results, ∃ item ∈ items, f item = .ok b := by
  induction items generalizing results with
  | nil =>
    cases settled
    simp
  | cons item items ih =>
    rw [List.mapM_cons] at settled
    obtain ⟨first,own,rest_⟩ := bind_settled settled
    obtain ⟨rest,others,made⟩ := bind_settled rest_
    cases made
    obtain ⟨there,back⟩ := ih others
    constructor
    · refine List.forall_mem_cons.mpr ⟨⟨first,List.mem_cons_self,own⟩,?_⟩
      intro other member
      obtain ⟨b,inside,same⟩ := there other member
      exact ⟨b,List.mem_cons_of_mem _ inside,same⟩
    · refine List.forall_mem_cons.mpr ⟨⟨item,List.mem_cons_self,own⟩,?_⟩
      intro b inside
      obtain ⟨other,member,same⟩ := back b inside
      exact ⟨other,List.mem_cons_of_mem _ member,same⟩

end Results

section Compiled
variable {r : Runtime} {configuration : Configuration} {validator : Validation.Validator} {exempts : Text → Bool}
  {newUrl : Text → Option Text}

-- What transformations make of the lines that are given to them.
theorem applied_lines (registry : r.registry = defaultRegistry validator r.parser exempts newUrl) (agrees : Agrees validator r.parser)
    {types : List TransformationType} (cleans : ∀ type ∈ types, type ∈ stating)
    (applied : applyTransformations (pipeline r) (getOrderedTransformations types) kept = .ok result) (ruled : Ruled r.parser line) :
    line ∈ result ↔ ∃ original ∈ kept, written types original = line ∧ ∀ type ∈ types, accepts validator type (trim line) := by
  have cleaned : ∀ type ∈ getOrderedTransformations types, type ∈ stating := fun type member => cleans type ((mem_ordered types type).mp member)
  have whole : pipeline r = ⟨(pipeline r).filterService,defaultRegistry validator r.parser exempts newUrl⟩ := by
    rw [← registry]
    rfl
  rw [whole,passes_run] at applied
  · obtain rfl := Except.ok.inj applied
    simpa only [written_ordered,mem_ordered] using passes_lines agrees cleaned kept ruled
  · exact fun type member => stating_known type (cleaned type member)

theorem filtered_lines (filtered : filterRules (pipeline r) rules filterable = .ok kept) (line : Text) :
    line ∈ kept ↔ line ∈ rules ∧ ∃ patterns, Prepares (pipeline r).filterService filterable patterns ∧ patterns.Respects line := by
  have exact_ {patterns : Patterns} (prepared : Prepares (pipeline r).filterService filterable patterns) :
      line ∈ kept ↔ line ∈ rules ∧ patterns.Respects line := by
    obtain ⟨lines,same,-,members⟩ := filterRules_exact (pipeline r) prepared rules
    rw [filtered] at same
    cases same
    exact members line
  constructor
  · intro member
    obtain ⟨patterns,prepared⟩ := filterRules_prepared (pipeline r) filtered
    obtain ⟨inside,respects⟩ := (exact_ prepared).mp member
    exact ⟨inside,patterns,prepared,respects⟩
  · intro found
    obtain ⟨inside,patterns,prepared,respects⟩ := found
    exact (exact_ prepared).mpr ⟨inside,respects⟩

-- Either compiler fetches a document, takes its header off, filters it if the
-- source asks for transformations, and applies these.
theorem source_stages (compiler : Compiler) (done : compiler.compileSource r configuration source = .ok lines) :
    ∃ document, compiler.fetch r source = .ok document ∧
      ∃ kept, (if requested source = [] then .ok (stripUpstreamHeaders document)
          else filterRules (pipeline r) (stripUpstreamHeaders document) (compiler.filterable configuration source)) = .ok kept ∧
        applyTransformations (pipeline r) (getOrderedTransformations (requested source)) kept = .ok lines := by
  cases compiler with
  | filter =>
    have own : SourceCompiler.compile r source = .ok lines := done
    cases fetched : download r source.source with
    | error thrown =>
      rw [SourceCompiler.compile,fetched] at own
      cases own
    | ok document =>
      have staged := source_stage r fetched
      rw [own] at staged
      obtain ⟨kept,survived,applied⟩ := bind_settled (toOption_settled staged.symm)
      exact ⟨document,fetched,kept,survived,applied⟩
  | worker =>
    have own : WorkerCompiler.compileSource r configuration source = .ok lines := done
    cases fetched : WorkerCompiler.download r source with
    | error thrown =>
      rw [WorkerCompiler.compileSource,fetched] at own
      cases own
    | ok document =>
      rw [WorkerCompiler.compileSource,fetched] at own
      dsimp only at own
      rw [worker_stage] at own
      obtain ⟨kept,survived,applied⟩ := bind_settled own
      exact ⟨document,fetched,kept,survived,applied⟩

theorem source_lines (registry : r.registry = defaultRegistry validator r.parser exempts newUrl) (agrees : Agrees validator r.parser)
    (bangs : Bangs r.parser) (compiler : Compiler) {source : Source} (cleans : ∀ type ∈ requested source, type ∈ stating)
    (done : compiler.compileSource r configuration source = .ok lines) :
    ∃ document, compiler.fetch r source = .ok document ∧ ∀ line, Ruled r.parser line → (line ∈ lines ↔
      ∃ original ∈ document, Passes r configuration compiler source original ∧ written (requested source) original = line ∧
        ∀ type ∈ requested source, accepts validator type (trim line)) := by
  obtain ⟨document,fetched,kept,survived,applied⟩ := source_stages compiler done
  refine ⟨document,fetched,?_⟩
  have survivors (original : Text) (states : Ruled r.parser original) :
      original ∈ kept ↔ original ∈ document ∧ Passes r configuration compiler source original := by
    rw [← mem_stripped bangs states document]
    split at survived
    · rename_i none
      cases survived
      simp [Passes,none]
    · rename_i some_
      rw [filtered_lines survived original]
      simp [Passes,some_]
  intro line ruled
  rw [applied_lines registry agrees cleans applied ruled]
  constructor
  · intro found
    obtain ⟨original,member,rfl,accepted⟩ := found
    obtain ⟨inside,passes⟩ := (survivors original (ruled_trim (trim_written _ original) ruled)).mp member
    exact ⟨original,inside,passes,rfl,accepted⟩
  · intro found
    obtain ⟨original,inside,passes,rfl,accepted⟩ := found
    have states := ruled_trim (trim_written (requested source) original) ruled
    exact ⟨original,(survivors original states).mpr ⟨inside,passes⟩,rfl,accepted⟩

theorem compile_lists (compiler : Compiler) (done : compiler.compileWithMetrics r configuration now = .ok result) :
    ∃ finalList, compileLists r (fun source => compiler.compileSource r configuration source) configuration = .ok finalList ∧
      result = assemble r now configuration finalList := by
  cases compiler with
  | filter =>
    have compiled := mapError_settled done
    split at compiled
    · cases compiled
    · obtain ⟨finalList,lists,made⟩ := map_settled compiled
      exact ⟨finalList,lists,made.symm⟩
  | worker =>
    have compiled : WorkerCompiler.compileWithMetrics r now configuration = .ok result := done
    unfold WorkerCompiler.compileWithMetrics at compiled
    split at compiled
    · cases compiled
    · obtain ⟨finalList,lists,made⟩ := map_settled compiled
      exact ⟨finalList,lists,made.symm⟩

-- The lists of the sources one after the other, without the headers between.
theorem joined_lines (bangs : Bangs r.parser) {compileSource : Source → Except Failure (List Text)} {sources : List Source}
    (joined : (sources.mapM fun source => (compileSource source).map (generateSourceHeader source ++ ·)) = .ok results)
    (ruled : Ruled r.parser line) :
    line ∈ results.flatten ↔ ∃ source ∈ sources, ∃ lines, compileSource source = .ok lines ∧ line ∈ lines := by
  have header (source : Source) : line ∉ generateSourceHeader source := fun member =>
    bang_unruled bangs (sourceHeader_comments source line member) ruled
  rw [List.mem_flatten]
  constructor
  · intro found
    obtain ⟨part,member,inside⟩ := found
    obtain ⟨source,own,made⟩ := (mapM_settled joined).2 part member
    obtain ⟨lines,compiled,rfl⟩ := map_settled made
    exact ⟨source,own,lines,compiled,(List.mem_append.mp inside).resolve_left (header source)⟩
  · intro found
    obtain ⟨source,own,lines,compiled,inside⟩ := found
    obtain ⟨part,member,made⟩ := (mapM_settled joined).1 source own
    rw [compiled] at made
    cases made
    exact ⟨_,member,List.mem_append_right _ inside⟩

theorem compile_lines (registry : r.registry = defaultRegistry validator r.parser exempts newUrl) (agrees : Agrees validator r.parser)
    (bangs : Bangs r.parser) (compiler : Compiler) (own : ∀ source ∈ configuration.sources, ∀ type ∈ requested source, type ∈ stating)
    (shared : ∀ type ∈ configuration.transformations.getD [], type ∈ stating)
    (done : compiler.compileWithMetrics r configuration now = .ok result) :
    ∃ patterns, Prepares (pipeline r).filterService configuration.toFilterable patterns ∧ ∀ line, Ruled r.parser line → (line ∈ result ↔
      ∃ source ∈ configuration.sources, ∃ document, compiler.fetch r source = .ok document ∧ ∃ original ∈ document,
        written (configuration.transformations.getD []) (written (requested source) original) = line ∧
          Admitted r configuration validator compiler source patterns original) := by
  obtain ⟨finalList,lists,rfl⟩ := compile_lists compiler done
  obtain ⟨results,joined,transformed⟩ := bind_settled lists
  obtain ⟨kept,filtered,applied⟩ := bind_settled transformed
  obtain ⟨patterns,prepared⟩ := filterRules_prepared (pipeline r) filtered
  obtain ⟨kept,same,-,survivors⟩ := filterRules_exact (pipeline r) prepared results.flatten
  rw [filtered] at same
  cases same
  refine ⟨patterns,prepared,?_⟩
  intro line ruled
  rw [mem_assembled bangs ruled,applied_lines registry agrees shared applied ruled]
  constructor
  · intro found
    obtain ⟨middle,member,rfl,accepted⟩ := found
    obtain ⟨inside,respects⟩ := (survivors middle).mp member
    have states := ruled_trim (trim_written (configuration.transformations.getD []) middle) ruled
    obtain ⟨source,listed,lines,compiled,place⟩ := (joined_lines bangs joined states).mp inside
    obtain ⟨document,fetched,exact_⟩ := source_lines registry agrees bangs compiler (own source listed) compiled
    obtain ⟨original,brought,passes,rfl,first⟩ := (exact_ middle states).mp place
    rw [trim_written,trim_written] at accepted
    rw [trim_written] at first
    exact ⟨source,listed,document,fetched,original,brought,rfl,passes,respects,List.forall_mem_append.mpr ⟨first,accepted⟩⟩
  · intro found
    obtain ⟨source,listed,document,fetched,original,brought,rfl,admitted⟩ := found
    obtain ⟨first,accepted⟩ := List.forall_mem_append.mp admitted.accepted
    have states := ruled_trim (trim_written (configuration.transformations.getD []) _) ruled
    refine ⟨written (requested source) original,(survivors _).mpr ⟨(joined_lines bangs joined states).mpr ?_,admitted.shared⟩,rfl,?_⟩
    · obtain ⟨part,-,made⟩ := (mapM_settled joined).1 source listed
      obtain ⟨lines,compiled,-⟩ := map_settled made
      obtain ⟨given,read,exact_⟩ := source_lines registry agrees bangs compiler (own source listed) compiled
      rw [fetched] at read
      cases read
      refine ⟨source,listed,lines,compiled,(exact_ _ states).mpr ⟨original,brought,admitted.own,rfl,?_⟩⟩
      rw [trim_written]
      exact first
    · rw [trim_written,trim_written]
      exact accepted

-- The rules of a compiled list are those that its documents state, that the
-- patterns let pass and that the validation accepts, where they are asked for.
theorem compile_states (registry : r.registry = defaultRegistry validator r.parser exempts newUrl) (agrees : Agrees validator r.parser)
    (bangs : Bangs r.parser) (compiler : Compiler) (own : ∀ source ∈ configuration.sources, ∀ type ∈ requested source, type ∈ stating)
    (shared : ∀ type ∈ configuration.transformations.getD [], type ∈ stating)
    (done : compiler.compileWithMetrics r configuration now = .ok result) :
    ∃ patterns, Prepares (pipeline r).filterService configuration.toFilterable patterns ∧ ∀ rule, States r.parser result rule ↔
      rule ≠ [] ∧ isComment r.parser rule = false ∧ ∃ source ∈ configuration.sources, ∃ document, compiler.fetch r source = .ok document ∧
        ∃ original ∈ document, trim original = rule ∧ Admitted r configuration validator compiler source patterns original := by
  obtain ⟨patterns,prepared,lines⟩ := compile_lines registry agrees bangs compiler own shared done
  refine ⟨patterns,prepared,?_⟩
  intro rule
  constructor
  · intro states
    obtain ⟨some_,other,line,member,rfl⟩ := states
    obtain ⟨source,listed,document,fetched,original,brought,rfl,admitted⟩ := (lines line ⟨some_,other⟩).mp member
    exact ⟨some_,other,source,listed,document,fetched,original,brought,by rw [trim_written,trim_written],admitted⟩
  · intro stated
    obtain ⟨some_,other,source,listed,document,fetched,original,brought,rfl,admitted⟩ := stated
    have same := (trim_written (configuration.transformations.getD []) (written (requested source) original)).trans
      (trim_written (requested source) original)
    have ruled : Ruled r.parser original := ⟨some_,other⟩
    refine ⟨some_,other,_,(lines _ (ruled_trim same.symm ruled)).mpr ⟨source,listed,document,fetched,original,brought,rfl,admitted⟩,same⟩

end Compiled

section Runs

theorem basicParser_bangs : Bangs basicParser := by
  intro text rule parsed
  have comment : basicParser ('!' :: text) = some .comment := by simp [basicParser,startsWith]
  rw [comment] at parsed
  exact (Option.some.inj parsed).symm

-- A document with a header, a rule with a blank before it, one that the source
-- excludes and one that blocks a suffix.
def upstream : Runtime :=
  { runtimeOf "! Title: Upstream\n ||ads.com^\n||cdn.ads.com^\n||com^".toList with
    registry := defaultRegistry sampleValidator basicParser (fun _ => false) sampleUrl }

def withoutCdn : Source where
  source := "https://lists.example/a.txt".toList
  exclusions := some ["cdn".toList]
  transformations := some [.TrimLines,.Validate]

def ownList : Configuration := { configured none withoutCdn with transformations := some [.Deduplicate] }

theorem upstream_states :
    (∃ result, Compiler.filter.compileWithMetrics upstream ownList epoch = .ok result ∧
      ∃ patterns, Prepares (pipeline upstream).filterService ownList.toFilterable patterns ∧ ∀ rule, States upstream.parser result rule ↔
        rule ≠ [] ∧ isComment upstream.parser rule = false ∧ ∃ source ∈ ownList.sources, ∃ document,
          Compiler.filter.fetch upstream source = .ok document ∧ ∃ original ∈ document, trim original = rule ∧
            Admitted upstream ownList sampleValidator .filter source patterns original) ∧
      (Compiler.filter.compileWithMetrics upstream ownList epoch).toOption.map (List.filter fun line => !startsWith line ['!']) =
        some ["||ads.com^".toList] := by
  have compiles : (Compiler.filter.compileWithMetrics upstream ownList epoch).toOption.isSome := by decide +kernel
  obtain ⟨result,same⟩ := Option.isSome_iff_exists.mp compiles
  have done := toOption_settled same
  exact ⟨⟨result,done,compile_states rfl sampleTree_agrees basicParser_bangs .filter (by decide) (by decide) done⟩,by decide +kernel⟩

end Runs

end AdblockCompiler.CompiledRules
