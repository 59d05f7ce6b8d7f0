import AdblockCompiler.Preprocessor
import AdblockCompiler.Conditions

namespace AdblockCompiler.Paths
open JsText

def isUrl (source : Text) : Bool := startsWith source "http://".toList || startsWith source "https://".toList

def isSeparator (c : Char) : Bool := c == '/' || c == '\\'

-- The test of /^[a-zA-Z]:[/\\]/.
def windowsAbsolute : Text → Bool
  | drive :: ':' :: separator :: _ => drive.isAlpha && isSeparator separator
  | _ => false

def isAbsolutePath (path : Text) : Bool := startsWith path ['/'] || windowsAbsolute path

-- substring(0, lastIndexOf(c) + 1) for the last character of the kind.
def upToLast (kind : Char → Bool) (text : Text) : Text := text.rdropWhile fun c => !kind c

def dropDots (result : List Text) (segment : Text) : List Text :=
  if segment = "..".toList then
    (if result ≠ [] ∧ result.getLast? ≠ some [] then result.dropLast else result)
  else if segment ≠ ['.'] then result ++ [segment]
  else result

def normalizeDotSegments (path : Text) : Text :=
  let usesBackslash := path.contains '\\'
  let normalized := path.map fun c => if c == '\\' then '/' else c
  let result := (normalized.splitOn '/').foldl dropDots []
  [if usesBackslash then '\\' else '/'].intercalate result

example : normalizeDotSegments "/lists/base/../more/./x.txt".toList = "/lists/more/x.txt".toList := by decide

section Resolution
-- The URL constructor, as new URL(includePath, new URL(basePath)).toString().
variable (newURL : Text → Text → Except Thrown Text)

def traversalError (includePath baseDir : Text) : Thrown :=
  "Path traversal detected: '".toList ++ includePath ++ "' escapes base directory '".toList ++ baseDir ++ "'".toList

-- What the guard of the local branch refuses.
def escapes (includePath baseDir : Text) : Bool :=
  let normalizedBase := normalizeDotSegments baseDir
  normalizedBase ≠ [] && !startsWith (normalizeDotSegments (baseDir ++ includePath)) normalizedBase

def PathUtils.resolveIncludePath (includePath basePath : Text) : Except Thrown Text :=
  if isAbsolutePath includePath || isUrl includePath then .ok includePath
  else if isUrl basePath then
    match newURL includePath basePath with
    | .ok href => .ok href
    | .error _ => .ok includePath
  else
    let baseDir := upToLast isSeparator basePath
    if escapes includePath baseDir then .error (traversalError includePath baseDir)
    else .ok (normalizeDotSegments (baseDir ++ includePath))

-- The copy in PlatformDownloader: no try block around the constructor, no guard.
def PlatformDownloader.resolveIncludePath (includePath basePath : Text) : Except Thrown Text :=
  if isAbsolutePath includePath || isUrl includePath then .ok includePath
  else if isUrl basePath then
    newURL includePath basePath
  else
    let upToSlash := upToLast (· == '/') basePath
    let baseDir := if upToSlash ≠ [] then upToSlash else upToLast (· == '\\') basePath
    .ok (baseDir ++ includePath)

end Resolution
end AdblockCompiler.Paths

namespace AdblockCompiler.Download
open JsText NestedBlocks Preprocessor Paths

-- What the two downloaders do differently. Both have the same downloadInternal
-- and the same processDirectives over it.
structure Downloader where
  maxIncludeDepth : Nat
  evaluateCondition : Text → Bool
  resolveIncludePath (includePath basePath : Text) : Except Thrown Text
  read (source : Text) : Except Thrown Text

-- A file that ends with a line break has no empty last line.
def documentLines (content : Text) : List Text :=
  let lines := splitLines content
  if lines.getLast? = some [] then lines.dropLast else lines

-- downloadInternal at depth d, where room = maxIncludeDepth + 1 - d: the depth
-- is past the limit when no room is left. The state is visitedUrls.
def downloadInternal (d : Downloader) : Nat → Text → List Text → Outcome (List Text)
  | 0,_,visitedUrls => (.ok [],visitedUrls)
  | room+1,source,visitedUrls =>
    if source ∈ visitedUrls then (.ok [],visitedUrls)
    else
      match d.read source with
      | .error thrown => (.error thrown,source :: visitedUrls)
      | .ok content =>
        processDirectives ⟨d.evaluateCondition,fun includePath => d.resolveIncludePath includePath source,
          downloadInternal d room⟩ (documentLines content) (source :: visitedUrls)

def Downloader.environment (d : Downloader) (room : Nat) (basePath : Text) : Environment (List Text) :=
  ⟨d.evaluateCondition,fun includePath => d.resolveIncludePath includePath basePath,downloadInternal d room⟩

def Downloader.download (d : Downloader) (source : Text) : Outcome (List Text) :=
  downloadInternal d (d.maxIncludeDepth+1) source []

def MAX_INCLUDE_DEPTH : Nat := 10

-- The network, the disk and the URL constructor are parameters. A source is
-- asked for at most once in a download, so an answer for each is enough.
structure FilterDownloader where
  fetchUrl : Text → Except Thrown Text
  readFile : Text → Except Thrown Text
  newURL : Text → Text → Except Thrown Text
  toLowerCase : Text → Text
  maxIncludeDepth : Nat := MAX_INCLUDE_DEPTH

def FilterDownloader.downloader (f : FilterDownloader) : Downloader where
  maxIncludeDepth := f.maxIncludeDepth
  evaluateCondition condition := Conditions.evaluateBooleanExpression f.toLowerCase condition none
  resolveIncludePath := PathUtils.resolveIncludePath f.newURL
  read source := if isUrl source then f.fetchUrl source else f.readFile source

structure PlatformDownloader where
  canHandle : Text → Bool
  fetch : Text → Except Thrown Text
  newURL : Text → Text → Except Thrown Text
  newFunction : Text → Option Bool
  toLowerCase : Text → Text
  maxIncludeDepth : Nat := MAX_INCLUDE_DEPTH

def noFetcher (source : Text) : Thrown := "No fetcher available for source: ".toList ++ source

def PlatformDownloader.downloader (p : PlatformDownloader) : Downloader where
  maxIncludeDepth := p.maxIncludeDepth
  evaluateCondition condition := Conditions.PlatformDownloader.evaluateCondition p.newFunction p.toLowerCase condition none
  resolveIncludePath := Paths.PlatformDownloader.resolveIncludePath p.newURL
  read source := if p.canHandle source then p.fetch source else .error (noFetcher source)

-- The abstract document behind a source: its own lines and its includes, in
-- order, once the conditions are decided.
def Downloader.contents (d : Downloader) (content : Text) : List Piece :=
  pieces d.evaluateCondition (documentLines content)

def ownLines (items : List Piece) : List Text :=
  items.filterMap fun | .line text => some text | .inclusion _ => none

def includePaths (items : List Piece) : List Text :=
  items.filterMap fun | .line _ => none | .inclusion path => some path

section Steps
variable (d : Downloader)

theorem download_seen (room : Nat) (seen : source ∈ visited) : downloadInternal d room source visited = (.ok [],visited) := by
  cases room with
  | zero => rfl
  | succ room => rw [downloadInternal,if_pos seen]

theorem download_fails (room : Nat) (fresh : source ∉ visited) (failed : d.read source = .error thrown) :
    downloadInternal d (room+1) source visited = (.error thrown,source :: visited) := by
  rw [downloadInternal,if_neg fresh,failed]

theorem download_reads (room : Nat) (fresh : source ∉ visited) (found : d.read source = .ok content) :
    downloadInternal d (room+1) source visited =
      runPieces (d.environment room source) (d.contents content) (source :: visited) := by
  rw [downloadInternal,if_neg fresh,found]
  exact directives_pieces (d.environment room source) (documentLines content) (source :: visited)

-- Every way a nested download can go: refused, failed or read.
theorem download_cases (room : Nat) (source : Text) (visited : List Text) :
    downloadInternal d room source visited = (.ok [],visited) ∨
    (∃ less thrown, room = less+1 ∧ source ∉ visited ∧ d.read source = .error thrown ∧
      downloadInternal d room source visited = (.error thrown,source :: visited)) ∨
    (∃ less content, room = less+1 ∧ source ∉ visited ∧ d.read source = .ok content ∧
      downloadInternal d room source visited =
        runPieces (d.environment less source) (d.contents content) (source :: visited)) := by
  by_cases seen : source ∈ visited
  · exact .inl (download_seen d room seen)
  · cases room with
    | zero => exact .inl rfl
    | succ room =>
      cases found : d.read source with
      | error thrown => exact .inr (.inl ⟨room,thrown,rfl,seen,rfl,download_fails d room seen found⟩)
      | ok content => exact .inr (.inr ⟨room,content,rfl,seen,rfl,download_reads d room seen found⟩)

end Steps

-- Directive lines never come out of a download, at any depth.
theorem download_plain (d : Downloader) (room : Nat) (source : Text) (visited : List Text)
    (ran : downloadInternal d room source visited = (.ok lines,after)) : ∀ line ∈ lines, Plain line := by
  induction room generalizing source visited lines after with
  | zero => cases ran; intro line member; cases member
  | succ room ih =>
    rcases download_cases d (room+1) source visited with same | ⟨_,_,_,_,_,same⟩ | ⟨less,content,equal,_,_,same⟩
    · rw [same] at ran
      cases ran; intro line member; cases member
    · rw [same] at ran
      cases ran
    · cases equal
      rw [same] at ran
      refine run_plain (d.environment room source) ?_ _ ?_ ran
      · intro path s lines after nested
        exact ih path s nested
      · intro text kept
        exact kept_plain kept

def FilterDownloader.processDirectives (f : FilterDownloader) (room : Nat) (basePath : Text) (lines : List Text)
    (visited : List Text) : Outcome (List Text) :=
  Preprocessor.processDirectives (f.downloader.environment room basePath) lines visited

def FilterDownloader.evaluateCondition (f : FilterDownloader) (condition : Text) : Bool :=
  f.downloader.evaluateCondition condition

theorem condition_trim (f : FilterDownloader) (condition : Text) :
    f.evaluateCondition (trim condition) = f.evaluateCondition condition := by
  show Conditions.evaluateBooleanExpression _ _ _ = Conditions.evaluateBooleanExpression _ _ _
  rw [Conditions.evaluateBooleanExpression,Conditions.evaluateBooleanExpression,trim_trim]

-- The preprocessor on a document printed from a tree, and on any lines.
theorem processDirectives_structure (f : FilterDownloader) (room : Nat) (basePath : Text) :
    (∀ document lines visited, Prints marks document lines →
      f.processDirectives room basePath lines visited = (.ok (document.flatten f.evaluateCondition),visited)) ∧
    (∀ lines startIndex, startIndex < lines.length →
      (parseFrom lines startIndex).2 = findEndIfIndex lines startIndex + 1) ∧
    (∀ lines visited out after, f.processDirectives room basePath lines visited = (.ok out,after) →
      ∀ line ∈ out, starts line .If = false ∧ starts line .Include = false ∧ starts line .Safari = false ∧
        equals line .Else = false ∧ equals line .EndIf = false) := by
  refine ⟨?_,fun lines startIndex inside => same_span inside,?_⟩
  · intro document lines visited printed
    have trimmed : (fun condition => f.evaluateCondition (trim condition)) = f.evaluateCondition :=
      funext (condition_trim f)
    have flattened := process_document (f.downloader.environment room basePath) printed visited
    exact trimmed ▸ flattened
  · intro lines visited out after ran
    refine directives_plain (f.downloader.environment room basePath) ?_ ran
    intro path s lines after nested
    exact download_plain f.downloader room path s nested

def plainLists : FilterDownloader where
  fetchUrl _ := .error []
  readFile _ := .error []
  newURL _ _ := .error []
  toLowerCase := lowerCase

-- An !#if block with an else branch, written with blanks around its directives.
theorem branch_flattened :
    plainLists.processDirectives 0 "a".toList
        [" !#if  mac ".toList,"||x^".toList,"!#else".toList,"||y^".toList,"!#endif\t".toList] [] =
      (.ok ((Document.branch "mac".toList (.leaf "||x^".toList .done) (.leaf "||y^".toList .done) .done).flatten
        plainLists.evaluateCondition),[]) ∧
    (parseFrom ["!#if mac".toList,"!#if ios".toList] 0).2 = findEndIfIndex ["!#if mac".toList,"!#if ios".toList] 0 + 1 := by
  obtain ⟨flattened,span,-⟩ := processDirectives_structure plainLists 0 "a".toList
  refine ⟨flattened _ _ [] ?_,span _ 0 (by decide)⟩
  have one : Plain "||x^".toList := by unfold Plain; decide
  have two : Plain "||y^".toList := by unfold Plain; decide
  have thens : Prints marks (.leaf "||x^".toList .done) ["||x^".toList] := .leaf one .done
  have elses : Prints marks (.leaf "||y^".toList .done) ["||y^".toList] := .leaf two .done
  refine .branch ?_ thens ?_ elses ?_ .done
  · exact ⟨[' '],[' ',' '],[' '],every_char (by decide),every_char (by decide),every_char (by decide),by decide⟩
  · exact ⟨[],[],allSpace_nil,allSpace_nil,by decide⟩
  · exact ⟨[],['\t'],allSpace_nil,every_char (by decide),by decide⟩

section Runs

theorem includeBranch_ok (env : Environment σ) (s : σ) (resolved : env.resolveIncludePath path = .ok resolvedPath) :
    ∃ lines, includeBranch env path s = (.ok lines,(env.downloadInternal resolvedPath s).2) := by
  rw [includeBranch,resolved]
  cases ran : env.downloadInternal resolvedPath s with
  | mk result after =>
    cases result with
    | error thrown => exact ⟨[],by simp only [ran]⟩
    | ok lines => exact ⟨lines,by simp only [ran]⟩

theorem includeBranch_error (env : Environment σ) (s : σ) (thrown_by : env.resolveIncludePath path = .error thrown) :
    includeBranch env path s = (.error thrown,s) := by rw [includeBranch,thrown_by]

-- What each nested download does to the state, a whole run does.
theorem run_relation (env : Environment σ) (R : σ → σ → Prop) (refl : ∀ s, R s s) (trans : ∀ a b c, R a b → R b c → R a c)
    (items : List Piece)
    (step : ∀ path ∈ includePaths items, ∀ resolvedPath s, env.resolveIncludePath path = .ok resolvedPath →
      R s (env.downloadInternal resolvedPath s).2) (s : σ) : R s (runPieces env items s).2 := by
  induction items generalizing s with
  | nil => exact refl s
  | cons item rest ih =>
    cases item with
    | line text =>
      have tail := ih (fun path member => step path (by simpa [includePaths] using member)) s
      rw [runPieces,Outcome.andThen]
      cases ran : runPieces env rest s with
      | mk result after =>
        rw [ran] at tail
        cases result <;> exact tail
    | inclusion path =>
      have tail := fun s => ih (fun path member => step path (by simpa [includePaths] using Or.inr member)) s
      unfold runPieces
      cases resolved : env.resolveIncludePath path with
      | error thrown =>
        rw [includeBranch_error env s resolved]
        exact refl s
      | ok resolvedPath =>
        obtain ⟨lines,included⟩ := includeBranch_ok env s resolved
        have first := step path (by simp [includePaths]) resolvedPath s resolved
        have second := tail (env.downloadInternal resolvedPath s).2
        rw [included,Outcome.andThen]
        cases ran : runPieces env rest (env.downloadInternal resolvedPath s).2 with
        | mk result after =>
          rw [ran] at second
          cases result <;> exact trans _ _ _ first second

theorem includePaths_line (text : Text) (rest : List Piece) : includePaths (.line text :: rest) = includePaths rest := rfl
theorem includePaths_inclusion (path : Text) (rest : List Piece) :
    includePaths (.inclusion path :: rest) = path :: includePaths rest := rfl

theorem ownLines_inclusion (path : Text) (rest : List Piece) : ownLines (.inclusion path :: rest) = ownLines rest := rfl

-- A run is cut short exactly by an include path that does not resolve.
theorem run_ok_exact (env : Environment σ) (items : List Piece) (s : σ) :
    (∃ lines after, runPieces env items s = (.ok lines,after)) ↔
      ∀ path ∈ includePaths items, ∃ resolvedPath, env.resolveIncludePath path = .ok resolvedPath := by
  induction items generalizing s with
  | nil => simp [runPieces,includePaths]
  | cons item rest ih =>
    cases item with
    | line text =>
      rw [includePaths_line,← ih s]
      constructor
      · intro whole
        obtain ⟨lines,after,ran⟩ := whole
        obtain ⟨one,middle,more,first,next,-⟩ := (andThen_ok _ _).mp ran
        cases first
        exact ⟨more,after,next⟩
      · intro whole
        obtain ⟨lines,after,ran⟩ := whole
        exact ⟨text :: lines,after,(andThen_ok _ _).mpr ⟨[text],s,lines,rfl,ran,rfl⟩⟩
    | inclusion path =>
      rw [includePaths_inclusion,List.forall_mem_cons]
      constructor
      · intro whole
        obtain ⟨lines,after,ran⟩ := whole
        obtain ⟨one,middle,more,first,next,-⟩ := (andThen_ok _ _).mp ran
        refine ⟨?_,(ih middle).mp ⟨more,after,next⟩⟩
        cases resolved : env.resolveIncludePath path with
        | error thrown =>
          rw [includeBranch_error env s resolved] at first
          cases first
        | ok resolvedPath => exact ⟨resolvedPath,rfl⟩
      · intro all
        obtain ⟨⟨resolvedPath,resolved⟩,others⟩ := all
        obtain ⟨one,included⟩ := includeBranch_ok env s resolved
        obtain ⟨lines,after,ran⟩ := (ih (env.downloadInternal resolvedPath s).2).mpr others
        exact ⟨one ++ lines,after,(andThen_ok _ _).mpr ⟨one,_,lines,included,ran,rfl⟩⟩

-- A run that is not cut short keeps the document's own lines, in order.
theorem run_keeps (env : Environment σ) (items : List Piece) (s : σ) (ran : runPieces env items s = (.ok lines,after)) :
    (ownLines items).Sublist lines := by
  induction items generalizing s lines with
  | nil => exact List.nil_sublist lines
  | cons item rest ih =>
    cases item with
    | line text =>
      obtain ⟨one,middle,more,first,next,rfl⟩ := (andThen_ok _ _).mp ran
      cases first
      exact (ih s next).cons_cons text
    | inclusion path =>
      obtain ⟨one,middle,more,first,next,rfl⟩ := (andThen_ok _ _).mp ran
      exact (ih middle next).trans (List.sublist_append_right one more)

end Runs

section Isolation

-- A document that was read is lost exactly when one of its own include paths
-- makes the resolution throw; failures further down stay where they happen.
theorem document_isolated (d : Downloader) (room : Nat) (fresh : source ∉ visited) (found : d.read source = .ok content) :
    (∃ lines after, downloadInternal d (room+1) source visited = (.ok lines,after) ∧
      (ownLines (d.contents content)).Sublist lines) ↔
      ∀ path ∈ includePaths (d.contents content), ∃ resolvedPath, d.resolveIncludePath path source = .ok resolvedPath := by
  rw [download_reads d room fresh found]
  refine Iff.trans ?_ (run_ok_exact (d.environment room source) (d.contents content) (source :: visited))
  constructor
  · intro ⟨lines,after,ran,_⟩
    exact ⟨lines,after,ran⟩
  · intro ⟨lines,after,ran⟩
    exact ⟨lines,after,ran,run_keeps _ _ _ ran⟩

-- A path that both resolutions look at together with its base.
def Relative (path : Text) : Prop := isAbsolutePath path = false ∧ isUrl path = false

theorem path_resolves (newURL : Text → Text → Except Thrown Text) (path base : Text) :
    (∃ resolvedPath, PathUtils.resolveIncludePath newURL path base = .ok resolvedPath) ↔
      ¬(Relative path ∧ isUrl base = false ∧ escapes path (upToLast isSeparator base) = true) := by
  unfold PathUtils.resolveIncludePath Relative
  cases isAbsolutePath path <;> cases isUrl path <;> cases isUrl base <;>
    cases escaped : escapes path (upToLast isSeparator base) <;> simp [escaped]
  all_goals split <;> simp

theorem platform_resolves (newURL : Text → Text → Except Thrown Text) (path base : Text) :
    (∃ resolvedPath, Paths.PlatformDownloader.resolveIncludePath newURL path base = .ok resolvedPath) ↔
      ¬(Relative path ∧ isUrl base = true ∧ ∃ thrown, newURL path base = .error thrown) := by
  unfold Paths.PlatformDownloader.resolveIncludePath Relative
  cases isAbsolutePath path <;> cases isUrl path <;> cases isUrl base <;> cases newURL path base <;> simp

-- Both downloaders lose a whole root document exactly on the include paths
-- that their resolution throws on: outside the base directory for one, refused
-- by the URL constructor for the other.
theorem includes_isolated_exact (f : FilterDownloader) (p : PlatformDownloader) :
    (∀ root content, f.downloader.read root = .ok content →
      ((∃ lines visited, f.downloader.download root = (.ok lines,visited) ∧
          (ownLines (f.downloader.contents content)).Sublist lines) ↔
        ∀ path ∈ includePaths (f.downloader.contents content),
          ¬(Relative path ∧ isUrl root = false ∧ escapes path (upToLast isSeparator root) = true))) ∧
    (∀ root content, p.downloader.read root = .ok content →
      ((∃ lines visited, p.downloader.download root = (.ok lines,visited) ∧
          (ownLines (p.downloader.contents content)).Sublist lines) ↔
        ∀ path ∈ includePaths (p.downloader.contents content),
          ¬(Relative path ∧ isUrl root = true ∧ ∃ thrown, p.newURL path root = .error thrown))) := by
  constructor
  · intro root content found
    refine (document_isolated f.downloader _ List.not_mem_nil found).trans ?_
    exact forall₂_congr fun path _ => path_resolves f.newURL path root
  · intro root content found
    refine (document_isolated p.downloader _ List.not_mem_nil found).trans ?_
    exact forall₂_congr fun path _ => platform_resolves p.newURL path root

end Isolation

section Opened

theorem environment_opens (d : Downloader) (R : List Text → List Text → Prop) (refl : ∀ s, R s s)
    (trans : ∀ a b c, R a b → R b c → R a c) (opens : ∀ source s, source ∉ s → R s (source :: s)) (room : Nat) :
    ∀ source s, R s (downloadInternal d room source s).2 := by
  induction room with
  | zero =>
    intro source s
    exact refl s
  | succ room ih =>
    intro source s
    rcases download_cases d (room+1) source s with same | ⟨_,_,_,fresh,_,same⟩ | ⟨less,content,equal,fresh,_,same⟩
    · rw [same]
      exact refl s
    · rw [same]
      exact opens source s fresh
    · cases equal
      rw [same]
      refine trans _ _ _ (opens source s fresh) ?_
      exact run_relation (d.environment room source) R refl trans _ (fun _ _ resolvedPath s _ => ih resolvedPath s) _

-- visitedUrls only grows, by documents not in it.
theorem download_grows (d : Downloader) (room : Nat) (source : Text) (s : List Text) :
    s ⊆ (downloadInternal d room source s).2 :=
  environment_opens d (· ⊆ ·) (fun _ => List.Subset.refl _) (fun _ _ _ => List.Subset.trans)
    (fun source s _ => List.subset_cons_self source s) room source s

theorem download_nodup (d : Downloader) (room : Nat) (source : Text) (s : List Text) (distinct : s.Nodup) :
    (downloadInternal d room source s).2.Nodup :=
  environment_opens d (fun before after => before.Nodup → after.Nodup) (fun _ => id) (fun _ _ _ one two => two ∘ one)
    (fun _ _ fresh distinct => List.nodup_cons.mpr ⟨fresh,distinct⟩) room source s distinct

-- A property that every opened document hands on to what it includes holds of
-- all documents opened from one that has it. F is the final set of a run.
theorem download_closed (d : Downloader) (P : Text → Prop) (F : List Text)
    (handed : ∀ base ∈ F, P base → ∀ content, d.read base = .ok content → ∀ path ∈ includePaths (d.contents content),
      ∀ resolvedPath, d.resolveIncludePath path base = .ok resolvedPath → P resolvedPath) (room : Nat) :
    ∀ source s, P source → (downloadInternal d room source s).2 ⊆ F →
      ∀ opened ∈ (downloadInternal d room source s).2, opened ∈ s ∨ P opened := by
  induction room with
  | zero =>
    intro source s _ _ opened member
    exact .inl member
  | succ room ih =>
    intro source s first inside opened
    rcases download_cases d (room+1) source s with same | ⟨_,_,_,_,_,same⟩ | ⟨less,content,equal,_,found,same⟩
    · rw [same]
      intro member
      exact .inl member
    · rw [same]
      intro member
      rcases List.mem_cons.mp member with rfl | old
      · exact .inr first
      · exact .inl old
    · cases equal
      rw [same] at inside ⊢
      let R : List Text → List Text → Prop := fun before after =>
        before ⊆ after ∧ (after ⊆ F → ∀ opened ∈ after, opened ∈ before ∨ P opened)
      have growing : ∀ source s, s ⊆ (downloadInternal d room source s).2 := download_grows d room
      have base : source ∈ F := by
        have grown := run_relation (d.environment room source) (fun before after : List Text => before ⊆ after)
          (fun _ => List.Subset.refl _) (fun _ _ _ => List.Subset.trans) (d.contents content)
          (fun _ _ resolvedPath s _ => growing resolvedPath s) (source :: s)
        exact inside (grown List.mem_cons_self)
      have ran : R (source :: s) (runPieces (d.environment room source) (d.contents content) (source :: s)).2 := by
        refine run_relation (d.environment room source) R ?_ ?_ _ ?_ _
        · intro s
          exact ⟨List.Subset.refl _,fun _ _ => .inl⟩
        · intro a b c one two
          refine ⟨List.Subset.trans one.1 two.1,?_⟩
          intro final opened member
          rcases two.2 final opened member with old | holds
          · exact one.2 (List.Subset.trans two.1 final) opened old
          · exact .inr holds
        · intro path member resolvedPath s resolved
          have next := handed source base first content found path member resolvedPath resolved
          exact ⟨growing resolvedPath s,ih resolvedPath s next⟩
      intro member
      rcases ran.2 inside opened member with old | holds
      · rcases List.mem_cons.mp old with rfl | before
        · exact .inr first
        · exact .inl before
      · exact .inr holds

end Opened

section Remote

-- The include paths that an http(s) document resolves to an http(s) document.
def Remote (newURL : Text → Text → Except Thrown Text) (path base : Text) : Prop :=
  isUrl path = true ∨ (isAbsolutePath path = false ∧ ∃ href, newURL path base = .ok href ∧ isUrl href = true)

theorem resolve_remote (newURL : Text → Text → Except Thrown Text) (path : Text) (remote : isUrl base = true) :
    ∃ resolvedPath, PathUtils.resolveIncludePath newURL path base = .ok resolvedPath ∧
      (isUrl resolvedPath = true ↔ Remote newURL path base) := by
  unfold PathUtils.resolveIncludePath Remote
  by_cases direct : (isAbsolutePath path || isUrl path) = true
  · rw [if_pos direct]
    refine ⟨path,rfl,?_⟩
    constructor
    · exact .inl
    · intro either
      rcases either with url | ⟨relative,_⟩
      · exact url
      · simpa [relative] using direct
  · rw [if_neg direct,if_pos remote]
    obtain ⟨relative,notUrl⟩ : isAbsolutePath path = false ∧ isUrl path = false := by simpa using direct
    cases parsed : newURL path base with
    | ok href => exact ⟨href,rfl,by simp [relative,notUrl]⟩
    | error thrown => exact ⟨path,rfl,by simp [notUrl]⟩

theorem run_grows (d : Downloader) (room : Nat) (source : Text) (items : List Piece) (s : List Text) :
    s ⊆ (runPieces (d.environment room source) items s).2 :=
  run_relation (d.environment room source) (fun before after : List Text => before ⊆ after) (fun _ => List.Subset.refl _)
    (fun _ _ _ => List.Subset.trans) items (fun _ _ resolvedPath s _ => download_grows d room resolvedPath s) s

theorem andThen_state (first : Outcome σ) (next : σ → Outcome σ) :
    (first.andThen next).2 = match first with
      | (.error _,s) => s
      | (.ok _,s) => (next s).2 := by
  obtain ⟨result,s⟩ := first
  cases result with
  | error thrown => rfl
  | ok lines =>
    cases ran : next s with
    | mk result after => cases result <;> simp only [Outcome.andThen,ran]

-- Two runs over the same pieces agree when their nested downloads agree on
-- every state the run passes through; F bounds those states.
theorem run_same (d e : Downloader) (room : Nat) (source : Text) (F : List Text) (Good : List Text → Prop)
    (grows : ∀ s t, s ⊆ t → Good s → Good t) (resolution : d.resolveIncludePath = e.resolveIncludePath)
    (nested : ∀ t s, Good s → (downloadInternal d room t s).2 ⊆ F → downloadInternal e room t s = downloadInternal d room t s)
    (items : List Piece) (s : List Text) (good : Good s) (inside : (runPieces (d.environment room source) items s).2 ⊆ F) :
    runPieces (e.environment room source) items s = runPieces (d.environment room source) items s := by
  induction items generalizing s with
  | nil => rfl
  | cons item rest ih =>
    cases item with
    | line text =>
      have tail : (runPieces (d.environment room source) rest s).2 ⊆ F := by
        rw [runPieces,andThen_state] at inside
        exact inside
      rw [runPieces,runPieces]
      simp only [Outcome.andThen,ih s good tail]
    | inclusion path =>
      have same : (e.environment room source).resolveIncludePath path = (d.environment room source).resolveIncludePath path := by
        show e.resolveIncludePath path source = d.resolveIncludePath path source
        rw [resolution]
      cases resolved : (d.environment room source).resolveIncludePath path with
      | error thrown =>
        rw [runPieces,runPieces,includeBranch_error _ s resolved,includeBranch_error _ s (same.trans resolved)]
        rfl
      | ok resolvedPath =>
        obtain ⟨lines,included⟩ := includeBranch_ok (d.environment room source) s resolved
        rw [runPieces,andThen_state,included] at inside
        have middle : (downloadInternal d room resolvedPath s).2 ⊆ F :=
          List.Subset.trans (run_grows d room source rest _) inside
        have agree : (e.environment room source).downloadInternal resolvedPath s =
            (d.environment room source).downloadInternal resolvedPath s := nested resolvedPath s good middle
        have branch : includeBranch (e.environment room source) path s = includeBranch (d.environment room source) path s := by
          simp only [includeBranch,same,resolved,agree]
        have tail := ih ((d.environment room source).downloadInternal resolvedPath s).2
          (grows _ _ (download_grows d room resolvedPath s) good) inside
        rw [runPieces,runPieces,branch,included]
        simp only [Outcome.andThen,tail]

-- A download that opens nothing but http(s) documents runs the same whatever
-- the file system holds.
theorem unread_files (f : FilterDownloader) (readFile : Text → Except Thrown Text) (F : List Text) (room : Nat) :
    ∀ source s, (∀ opened ∈ F, opened ∈ s ∨ isUrl opened = true) → (downloadInternal f.downloader room source s).2 ⊆ F →
      downloadInternal {f with readFile := readFile}.downloader room source s = downloadInternal f.downloader room source s := by
  induction room with
  | zero =>
    intro source s _ _
    rfl
  | succ room ih =>
    intro source s good inside
    by_cases seen : source ∈ s
    · rw [download_seen _ _ seen,download_seen _ _ seen]
    · have opened : source ∈ (downloadInternal f.downloader (room+1) source s).2 := by
        cases found : f.downloader.read source with
        | error thrown =>
          rw [download_fails f.downloader room seen found]
          exact List.mem_cons_self
        | ok content =>
          rw [download_reads f.downloader room seen found]
          exact run_grows f.downloader room source _ _ List.mem_cons_self
      have url : isUrl source = true := (good source (inside opened)).resolve_left seen
      have reads : {f with readFile := readFile}.downloader.read source = f.downloader.read source := by
        show (if isUrl source then _ else _) = if isUrl source then _ else _
        rw [if_pos url,if_pos url]
      cases found : f.downloader.read source with
      | error thrown => rw [download_fails _ room seen found,download_fails _ room seen (reads.trans found)]
      | ok content =>
        rw [download_reads _ room seen (reads.trans found),download_reads f.downloader room seen found]
        rw [download_reads f.downloader room seen found] at inside
        refine run_same f.downloader {f with readFile := readFile}.downloader room source F
          (fun s => ∀ opened ∈ F, opened ∈ s ∨ isUrl opened = true) ?_ rfl ?_ _ _ ?_ inside
        · intro s t more good opened member
          rcases good opened member with old | url
          · exact .inl (more old)
          · exact .inr url
        · intro t s good inside
          exact ih t s good inside
        · intro opened member
          rcases good opened member with old | url
          · exact .inl (List.mem_cons_of_mem _ old)
          · exact .inr url

-- What an http(s) list can name, and what a download of one opens as long as it
-- names nothing else.
theorem remote_includes (f : FilterDownloader) :
    (∀ path base, isUrl base = true → ∃ resolvedPath, PathUtils.resolveIncludePath f.newURL path base = .ok resolvedPath ∧
      (isUrl resolvedPath = true ↔ Remote f.newURL path base)) ∧
    (∀ root, isUrl root = true →
      (∀ base ∈ (f.downloader.download root).2, isUrl base = true → ∀ content, f.fetchUrl base = .ok content →
        ∀ path ∈ includePaths (f.downloader.contents content), Remote f.newURL path base) →
      (∀ opened ∈ (f.downloader.download root).2, isUrl opened = true) ∧
        ∀ readFile, {f with readFile := readFile}.downloader.download root = f.downloader.download root) := by
  refine ⟨fun path base remote => resolve_remote f.newURL path remote,?_⟩
  intro root url includes
  have opened := download_closed f.downloader (fun source => isUrl source = true) (f.downloader.download root).2 (by
    intro base member remote content found path included resolvedPath resolved
    have fetched : f.fetchUrl base = .ok content := by
      rw [← found]
      show _ = if isUrl base then _ else _
      rw [if_pos remote]
    obtain ⟨other,same,url⟩ := resolve_remote f.newURL path remote
    have equal : resolvedPath = other := Except.ok.inj (resolved.symm.trans same)
    rw [equal]
    exact url.mpr (includes base member remote content fetched path included)) (f.maxIncludeDepth+1) root [] url
    (List.Subset.refl _)
  have urls : ∀ opened ∈ (f.downloader.download root).2, isUrl opened = true :=
    fun source member => (opened source member).resolve_left List.not_mem_nil
  refine ⟨urls,?_⟩
  intro readFile
  exact unread_files f readFile (f.downloader.download root).2 (f.maxIncludeDepth+1) root []
    (fun source member => .inr (urls source member)) (List.Subset.refl _)

-- The first published list of a run that reads a local file.
def leaking : FilterDownloader where
  fetchUrl _ := .ok "||a^\n!#include /etc/passwd".toList
  readFile _ := .ok "root:x:0:0".toList
  newURL _ _ := .error []
  toLowerCase := lowerCase

theorem absolute_include_leaks : isUrl "http://lists.example/a.txt".toList = true ∧
    PathUtils.resolveIncludePath leaking.newURL "/etc/passwd".toList "http://lists.example/a.txt".toList =
      .ok "/etc/passwd".toList ∧ isUrl "/etc/passwd".toList = false ∧
    (leaking.downloader.download "http://lists.example/a.txt".toList).1 = .ok ["||a^".toList,"root:x:0:0".toList] := by
  refine ⟨by decide,by decide,by decide,by decide⟩

def onlyRemote : FilterDownloader where
  fetchUrl source := if source = "http://a/1".toList then .ok "!#include http://b/2".toList else .ok "||x^".toList
  readFile _ := .error []
  newURL path _ := .ok path
  toLowerCase := lowerCase

theorem onlyRemote_unread :
    (∀ path base, isUrl base = true → ∃ resolvedPath, PathUtils.resolveIncludePath onlyRemote.newURL path base = .ok resolvedPath ∧
      (isUrl resolvedPath = true ↔ Remote onlyRemote.newURL path base)) ∧
    ((∀ opened ∈ (onlyRemote.downloader.download "http://a/1".toList).2, isUrl opened = true) ∧
        ∀ readFile, {onlyRemote with readFile := readFile}.downloader.download "http://a/1".toList =
          onlyRemote.downloader.download "http://a/1".toList) := by
  refine ⟨(remote_includes onlyRemote).1,(remote_includes onlyRemote).2 "http://a/1".toList (by decide) ?_⟩
  intro base member url content found path included
  left
  have visited : (onlyRemote.downloader.download "http://a/1".toList).2 = ["http://b/2".toList,"http://a/1".toList] := by
    decide
  rw [visited] at member
  rcases List.mem_cons.mp member with rfl | second
  · have fetched : onlyRemote.fetchUrl "http://b/2".toList = .ok "||x^".toList := by decide
    obtain rfl := Except.ok.inj (fetched.symm.trans found)
    have none : includePaths (onlyRemote.downloader.contents "||x^".toList) = [] := by decide
    rw [none] at included
    cases included
  · obtain rfl := List.mem_singleton.mp second
    have fetched : onlyRemote.fetchUrl "http://a/1".toList = .ok "!#include http://b/2".toList := by decide
    obtain rfl := Except.ok.inj (fetched.symm.trans found)
    have one : includePaths (onlyRemote.downloader.contents "!#include http://b/2".toList) = ["http://b/2".toList] := by decide
    rw [one] at included
    rw [List.mem_singleton.mp included]
    decide

end Remote

section Losses

-- A local list whose second line points above its directory.
def localList : FilterDownloader where
  fetchUrl _ := .error []
  readFile _ := .ok "||x^\n!#include ../other.txt".toList
  newURL _ _ := .error []
  toLowerCase := lowerCase

-- A fetched list whose second line is no URL by any reading.
def workerList : PlatformDownloader where
  canHandle _ := true
  fetch _ := .ok "||x^\n!#include ftp://[".toList
  newURL _ _ := .error "Invalid URL: 'ftp://['".toList
  newFunction _ := none
  toLowerCase := lowerCase

theorem one_include_loses_list :
    (localList.downloader.download "/lists/a.txt".toList).1 =
      .error "Path traversal detected: '../other.txt' escapes base directory '/lists/'".toList ∧
    (workerList.downloader.download "http://a/1".toList).1 = .error "Invalid URL: 'ftp://['".toList := by
  constructor
  · decide
  · decide

theorem lists_isolated :
    ((∃ lines visited, localList.downloader.download "/lists/a.txt".toList = (.ok lines,visited) ∧
        (ownLines (localList.downloader.contents "||x^\n!#include ../other.txt".toList)).Sublist lines) ↔
      ∀ path ∈ includePaths (localList.downloader.contents "||x^\n!#include ../other.txt".toList),
        ¬(Relative path ∧ isUrl "/lists/a.txt".toList = false ∧
          escapes path (upToLast isSeparator "/lists/a.txt".toList) = true)) ∧
    ((∃ lines visited, workerList.downloader.download "http://a/1".toList = (.ok lines,visited) ∧
        (ownLines (workerList.downloader.contents "||x^\n!#include ftp://[".toList)).Sublist lines) ↔
      ∀ path ∈ includePaths (workerList.downloader.contents "||x^\n!#include ftp://[".toList),
        ¬(Relative path ∧ isUrl "http://a/1".toList = true ∧ ∃ thrown, workerList.newURL path "http://a/1".toList = .error thrown)) :=
  ⟨(includes_isolated_exact localList workerList).1 _ _ (by decide),(includes_isolated_exact localList workerList).2 _ _ (by decide)⟩

end Losses

end AdblockCompiler.Download
