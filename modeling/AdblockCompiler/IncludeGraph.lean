import AdblockCompiler.Downloader
import AdblockCompiler.Walk

namespace AdblockCompiler.Download
open JsText Preprocessor Paths Walk

-- The include graph: a document, its own lines and the documents it includes.
def Downloader.document (d : Downloader) (source : Text) : List Piece :=
  match d.read source with
  | .ok content => d.contents content
  | .error _ => []

def Downloader.plainLines (d : Downloader) (source : Text) : List Text := ownLines (d.document source)

def Downloader.targets (d : Downloader) (base : Text) (paths : List Text) : List Text :=
  paths.filterMap fun path => (d.resolveIncludePath path base).toOption

def Downloader.includes (d : Downloader) (source : Text) : List Text :=
  d.targets source (includePaths (d.document source))

-- Every fetch succeeds and every include path names a document, from the root
-- on as far as includes lead.
def Sound (d : Downloader) (root : Text) : Prop :=
  ∀ source, Relation.ReflTransGen (fun base next => next ∈ d.includes base) root source →
    (∃ content, d.read source = .ok content) ∧
    ∀ path ∈ includePaths (d.document source), ∃ resolvedPath, d.resolveIncludePath path source = .ok resolvedPath

section Walks
variable (d : Downloader)

theorem document_read (found : d.read source = .ok content) : d.document source = d.contents content := by
  rw [Downloader.document,found]

theorem targets_cons (resolved : d.resolveIncludePath path base = .ok resolvedPath) (paths : List Text) :
    d.targets base (path :: paths) = resolvedPath :: d.targets base paths := by
  rw [Downloader.targets,List.filterMap_cons,resolved]
  rfl

-- Running the pieces of a document is walking over its targets; what comes out
-- are its own lines and those of the documents opened on the way.
theorem run_walk (room : Nat) (source : Text)
    (nested : ∀ next ∈ d.includes source, ∀ opened, ∃ lines new, walk d.includes room next opened = new ++ opened ∧
      downloadInternal d room next opened.nodes = (.ok lines,(new ++ opened).nodes) ∧
      lines.Perm (new.nodes.flatMap d.plainLines))
    (items : List Piece) (opened : Opened Text)
    (resolves : ∀ path ∈ includePaths items, ∃ resolvedPath, d.resolveIncludePath path source = .ok resolvedPath)
    (inside : d.targets source (includePaths items) ⊆ d.includes source) :
    ∃ lines new,
      walkAll d.includes room (d.targets source (includePaths items)) opened = new ++ opened ∧
      runPieces (d.environment room source) items opened.nodes = (.ok lines,(new ++ opened).nodes) ∧
      lines.Perm (ownLines items ++ new.nodes.flatMap d.plainLines) := by
  induction items generalizing opened with
  | nil => exact ⟨[],[],rfl,rfl,List.Perm.refl _⟩
  | cons item rest ih =>
    cases item with
    | line text =>
      obtain ⟨lines,new,walked,ran,same⟩ := ih opened resolves inside
      refine ⟨text :: lines,new,walked,?_,same.cons text⟩
      exact (andThen_ok _ _).mpr ⟨[text],opened.nodes,lines,rfl,ran,rfl⟩
    | inclusion path =>
      rw [includePaths_inclusion,List.forall_mem_cons] at resolves
      obtain ⟨⟨resolvedPath,resolved⟩,others⟩ := resolves
      rw [includePaths_inclusion,targets_cons d resolved] at inside ⊢
      obtain ⟨first,later⟩ := List.cons_subset.mp inside
      obtain ⟨one,new,walked,downloaded,perm⟩ := nested resolvedPath first opened
      obtain ⟨more,newer,walkedMore,ran,permMore⟩ := ih (new ++ opened) others later
      refine ⟨one ++ more,newer ++ new,?_,?_,?_⟩
      · rw [walkAll_cons,walked,walkedMore,List.append_assoc]
      · have branch : includeBranch (d.environment room source) path opened.nodes = (.ok one,(new ++ opened).nodes) := by
          have resolved_here : (d.environment room source).resolveIncludePath path = .ok resolvedPath := resolved
          have downloaded_here : (d.environment room source).downloadInternal resolvedPath opened.nodes =
            (.ok one,(new ++ opened).nodes) := downloaded
          simp only [includeBranch,resolved_here,downloaded_here]
        rw [List.append_assoc]
        exact (andThen_ok _ _).mpr ⟨one,_,more,branch,ran,rfl⟩
      · rw [ownLines_inclusion]
        have regroup : (newer ++ new).nodes.flatMap d.plainLines =
            newer.nodes.flatMap d.plainLines ++ new.nodes.flatMap d.plainLines := by
          rw [Opened.nodes,List.map_append,List.flatMap_append]
          rfl
        rw [regroup]
        refine (perm.append permMore).trans ?_
        refine List.perm_append_comm.trans ?_
        rw [List.append_assoc]

-- downloadInternal is the depth-first walk of the include graph.
theorem download_walk (room : Nat) : ∀ source, Sound d source → ∀ opened : Opened Text, ∃ lines new,
    walk d.includes room source opened = new ++ opened ∧
    downloadInternal d room source opened.nodes = (.ok lines,(new ++ opened).nodes) ∧
    lines.Perm (new.nodes.flatMap d.plainLines) := by
  induction room with
  | zero =>
    intro source _ opened
    exact ⟨[],[],rfl,rfl,List.Perm.refl _⟩
  | succ room ih =>
    intro source sound opened
    by_cases seen : source ∈ opened.nodes
    · exact ⟨[],[],walk_seen d.includes (room+1) seen,download_seen d (room+1) seen,List.Perm.refl _⟩
    · obtain ⟨⟨content,found⟩,resolves⟩ := sound source .refl
      have nested : ∀ next ∈ d.includes source, Sound d next :=
        fun next edge reached path => sound reached (.head edge path)
      have ran := run_walk d room source (fun next edge => ih next (nested next edge)) (d.document source)
        ((source,room) :: opened) resolves (List.Subset.refl _)
      obtain ⟨lines,new,walked,downloaded,perm⟩ := ran
      refine ⟨lines,new ++ [(source,room)],?_,?_,?_⟩
      · rw [walk_fresh d.includes room seen,List.append_assoc]
        exact walked
      · rw [download_reads d room seen found,← document_read d found,List.append_assoc]
        exact downloaded
      · have regroup : Opened.nodes (new ++ [(source,room)]) = new.nodes ++ [source] := by simp [Opened.nodes]
        rw [regroup,List.flatMap_append,List.flatMap_singleton]
        exact perm.trans List.perm_append_comm

end Walks

section Outlines
variable {ε : Type} (view : Thrown → ε)

-- What a document amounts to once its conditions are decided and its paths are
-- resolved: where a path throws, nothing behind it is looked at. view says what
-- is of interest of a thrown error.
inductive Step (ε : Type) where
  | line (text : Text)
  | opens (document : Text)
  | throws (error : ε)
  deriving DecidableEq, Repr

-- At the last level the documents that are included are not opened.
def Downloader.steps (d : Downloader) (room : Nat) (base : Text) : List Piece → List (Step ε)
  | [] => []
  | .line text :: rest => .line text :: d.steps room base rest
  | .inclusion path :: rest =>
    match d.resolveIncludePath path base with
    | .error thrown => [.throws (view thrown)]
    | .ok resolvedPath => if room = 0 then d.steps room base rest else .opens resolvedPath :: d.steps room base rest

def Downloader.outline (d : Downloader) (room : Nat) (source : Text) : Except ε (List (Step ε)) :=
  match d.read source with
  | .error thrown => .error (view thrown)
  | .ok content => .ok (d.steps view room source (d.contents content))

def links : List (Step ε) → List Text
  | [] | .throws _ :: _ => []
  | .line _ :: rest => links rest
  | .opens document :: rest => document :: links rest

def Downloader.followed (d : Downloader) (base : Text) : List Piece → List Text
  | [] => []
  | .line _ :: rest => d.followed base rest
  | .inclusion path :: rest =>
    match d.resolveIncludePath path base with
    | .error _ => []
    | .ok resolvedPath => resolvedPath :: d.followed base rest

def Downloader.links (d : Downloader) (source : Text) : List Text := d.followed source (d.document source)

-- The documents that a download opens, each with the levels left below it.
def Downloader.opened (d : Downloader) (root : Text) : Opened Text := walk d.links (d.maxIncludeDepth+1) root []

def settled (outcome : Outcome σ) : Except ε (List Text) × σ := (outcome.1.mapError view,outcome.2)

def runSteps (nested : Text → List Text → List Text × List Text) : List (Step ε) → List Text → Except ε (List Text) × List Text
  | [],visited => (.ok [],visited)
  | .throws error :: _,visited => (.error error,visited)
  | .line text :: rest,visited =>
    let (lines,after) := runSteps nested rest visited
    (lines.map (text :: ·),after)
  | .opens document :: rest,visited =>
    let (included,middle) := nested document visited
    let (lines,after) := runSteps nested rest middle
    (lines.map (included ++ ·),after)

-- A nested download: what it throws is caught.
def Downloader.nested (d : Downloader) (room : Nat) (document : Text) (visited : List Text) : List Text × List Text :=
  let outcome := downloadInternal d room document visited
  (outcome.1.toOption.getD [],outcome.2)

theorem settled_andThen (first : Outcome σ) (next : σ → Outcome σ) :
    settled view (first.andThen next) = match first with
      | (.error thrown,s) => (.error (view thrown),s)
      | (.ok lines,s) => ((settled view (next s)).1.map (lines ++ ·),(settled view (next s)).2) := by
  obtain ⟨result,s⟩ := first
  cases result with
  | error thrown => rfl
  | ok lines =>
    cases ran : next s with
    | mk result after => cases result <;> simp [Outcome.andThen,ran,settled,Except.mapError,Except.map]

theorem run_steps (d : Downloader) (room : Nat) (base : Text) (items : List Piece) (visited : List Text) :
    settled view (runPieces (d.environment room base) items visited) = runSteps (d.nested room) (d.steps view room base items) visited := by
  induction items generalizing visited with
  | nil => rfl
  | cons item rest ih =>
    cases item with
    | line text =>
      rw [runPieces,settled_andThen,Downloader.steps,runSteps,← ih]
      rfl
    | inclusion path =>
      have same : (d.environment room base).resolveIncludePath path = d.resolveIncludePath path base := rfl
      rw [runPieces,settled_andThen,Downloader.steps,includeBranch,same]
      cases resolved : d.resolveIncludePath path base with
      | error thrown => rfl
      | ok document =>
        have ran : (d.environment room base).downloadInternal document visited = downloadInternal d room document visited := rfl
        dsimp only
        rw [ran]
        by_cases last : room = 0
        · subst last
          dsimp only [downloadInternal]
          rw [if_pos rfl,← ih]
          generalize settled view (runPieces (d.environment 0 base) rest visited) = outcome
          obtain ⟨result,after⟩ := outcome
          cases result <;> rfl
        · rw [if_neg last,runSteps,Downloader.nested]
          cases nested : downloadInternal d room document visited with
          | mk result after =>
            cases result <;> simp only [ih,Except.toOption,Option.getD_none,Option.getD_some]

theorem settled_reads (d : Downloader) (room : Nat) (fresh : source ∉ visited) :
    settled view (downloadInternal d (room+1) source visited) = match d.outline view room source with
      | .error error => (.error error,source :: visited)
      | .ok steps => runSteps (d.nested room) steps (source :: visited) := by
  rw [Downloader.outline]
  cases found : d.read source with
  | error thrown =>
    rw [download_fails d room fresh found]
    rfl
  | ok content =>
    rw [download_reads d room fresh found,run_steps]

theorem steps_links (d : Downloader) (room : Nat) (base : Text) (items : List Piece) :
    links (d.steps view (room+1) base items) = d.followed base items := by
  induction items with
  | nil => rfl
  | cons item rest ih =>
    cases item with
    | line text => exact ih
    | inclusion path =>
      rw [Downloader.steps,Downloader.followed]
      cases d.resolveIncludePath path base with
      | error thrown => rfl
      | ok document => exact congrArg (document :: ·) ih

theorem steps_same (one two : Downloader) (room : Nat) (base : Text) (items : List Piece)
    (resolves : ∀ path ∈ includePaths items, one.resolveIncludePath path base = two.resolveIncludePath path base) :
    one.steps view room base items = two.steps view room base items := by
  induction items with
  | nil => rfl
  | cons item rest ih =>
    cases item with
    | line text => exact congrArg (Step.line text :: ·) (ih resolves)
    | inclusion path =>
      obtain ⟨first,others⟩ := List.forall_mem_cons.mp resolves
      rw [Downloader.steps,Downloader.steps,first,ih others]

theorem walkAll_none (succ : Text → List Text) (documents : List Text) (opened : Opened Text) : walkAll succ 0 documents opened = opened := by
  induction documents with
  | nil => rfl
  | cons document rest ih => exact ih

theorem walk_outline (d : Downloader) (room : Nat) (source : Text) (opened : Opened Text) :
    walkAll d.links room (match d.outline view room source with | .error _ => [] | .ok steps => links steps) opened =
      walkAll d.links room (d.links source) opened := by
  cases room with
  | zero => rw [walkAll_none,walkAll_none]
  | succ room =>
    rw [Downloader.outline,Downloader.links,Downloader.document]
    cases d.read source with
    | error thrown => rfl
    | ok content =>
      dsimp only
      rw [steps_links]

theorem settled_lines {one two : Except Thrown (List Text)} (same : one.mapError view = two.mapError view) :
    one.toOption.getD [] = two.toOption.getD [] := by
  cases one <;> cases two
  case error.error => rfl
  case ok.ok => cases same; rfl
  all_goals cases same

-- Two downloaders that see the same in every document that one of them opens
-- download the same. Between the states before and after, what counts are the
-- documents opened on the way.
def Agrees (one two : Downloader) (before after : Opened Text) : Prop :=
  ∀ entry ∈ after, entry ∉ before → one.outline view entry.2 entry.1 = two.outline view entry.2 entry.1

theorem steps_agree (one two : Downloader) (room : Nat)
    (nested : ∀ document opened, Agrees view one two opened (walk two.links room document opened) →
      settled view (downloadInternal one room document opened.nodes) = settled view (downloadInternal two room document opened.nodes) ∧
      (downloadInternal two room document opened.nodes).2 = (walk two.links room document opened).nodes)
    (steps : List (Step ε)) (opened : Opened Text) (agrees : Agrees view one two opened (walkAll two.links room (links steps) opened)) :
    runSteps (one.nested room) steps opened.nodes = runSteps (two.nested room) steps opened.nodes ∧
      (runSteps (two.nested room) steps opened.nodes).2 = (walkAll two.links room (links steps) opened).nodes := by
  induction steps generalizing opened with
  | nil => exact ⟨rfl,rfl⟩
  | cons step rest ih =>
    cases step with
    | line text =>
      obtain ⟨same,after⟩ := ih opened agrees
      exact ⟨by rw [runSteps,runSteps,same],after⟩
    | throws error => exact ⟨rfl,rfl⟩
    | opens document =>
      have grows := walk_grows two.links room document opened
      have rest_grows : walk two.links room document opened ⊆ walkAll two.links room (links rest) (walk two.links room document opened) :=
        walkAll_grows two.links room (links rest) _
      obtain ⟨same,visited⟩ := nested document opened fun entry inside fresh => agrees entry (rest_grows inside) fresh
      obtain ⟨tail,after⟩ := ih (walk two.links room document opened) fun entry inside fresh =>
        agrees entry inside fun old => fresh (grows old)
      have lines : (one.nested room document opened.nodes).1 = (two.nested room document opened.nodes).1 :=
        settled_lines view (congrArg (fun outcome => outcome.1) same)
      have states : (one.nested room document opened.nodes).2 = (two.nested room document opened.nodes).2 :=
        congrArg (fun outcome => outcome.2) same
      have one_nested := Prod.ext lines states
      have middle : (two.nested room document opened.nodes).2 = (walk two.links room document opened).nodes := visited
      rw [runSteps,runSteps,one_nested]
      dsimp only
      rw [middle]
      exact ⟨by rw [tail],after⟩

theorem download_agrees (one two : Downloader) (room : Nat) : ∀ (source : Text) (opened : Opened Text),
    Agrees view one two opened (walk two.links room source opened) →
      settled view (downloadInternal one room source opened.nodes) = settled view (downloadInternal two room source opened.nodes) ∧
      (downloadInternal two room source opened.nodes).2 = (walk two.links room source opened).nodes := by
  induction room with
  | zero =>
    intro source opened _
    exact ⟨rfl,rfl⟩
  | succ room ih =>
    intro source opened agrees
    by_cases seen : source ∈ opened.nodes
    · rw [walk_seen two.links (room+1) seen,download_seen one (room+1) seen,download_seen two (room+1) seen]
      exact ⟨rfl,rfl⟩
    · rw [walk_fresh two.links room seen] at agrees ⊢
      have grown := walkAll_grows two.links room (two.links source) ((source,room) :: opened)
      have here : one.outline view room source = two.outline view room source :=
        agrees (source,room) (grown List.mem_cons_self) fun old => seen (List.mem_map_of_mem old)
      have read := settled_reads view two room seen
      have visited : (downloadInternal two (room+1) source opened.nodes).2 =
        (settled view (downloadInternal two (room+1) source opened.nodes)).2 := rfl
      rw [settled_reads view one room seen,visited,read,here]
      rw [← walk_outline view] at agrees ⊢
      cases outlined : two.outline view room source with
      | error error => exact ⟨rfl,rfl⟩
      | ok steps =>
        rw [outlined] at agrees
        apply steps_agree view one two room ih steps ((source,room) :: opened)
        intro entry inside fresh
        exact agrees entry inside fun old => fresh (List.mem_cons_of_mem _ old)

theorem download_same (one two : Downloader) (depth : one.maxIncludeDepth = two.maxIncludeDepth)
    (agrees : ∀ entry ∈ two.opened root, one.outline view entry.2 entry.1 = two.outline view entry.2 entry.1) :
    settled view (one.download root) = settled view (two.download root) := by
  rw [Downloader.download,Downloader.download,depth]
  exact (download_agrees view one two (two.maxIncludeDepth+1) root [] fun entry inside _ => agrees entry inside).1

end Outlines

section Completeness

theorem flatMap_filter (f : α → List β) (items : List α) :
    (items.filter fun item => !(f item).isEmpty).flatMap f = items.flatMap f := by
  induction items with
  | nil => rfl
  | cons item rest ih =>
    by_cases empty : f item = []
    · rw [List.filter_cons_of_neg (by simp [empty]),List.flatMap_cons,empty,List.nil_append,ih]
    · rw [List.filter_cons_of_pos (by simp [empty]),List.flatMap_cons,List.flatMap_cons,ih]

-- A list of distinct keys that yields what a shorter one yields has no further
-- key that yields anything.
theorem yields_inside (f : α → List β) {one two : List α} (distinct : one.Nodup) (same : (one.flatMap f).Perm (two.flatMap f))
    (inside : ∀ key ∈ one, f key ≠ [] → key ∈ two) (member : key ∈ two) (some : f key ≠ []) : key ∈ one := by
  classical
  by_contra absent
  let bearing := one.filter fun item => !(f item).isEmpty
  have fresh : (key :: bearing).Nodup :=
    List.nodup_cons.mpr ⟨fun again => absent (List.mem_of_mem_filter again),distinct.filter _⟩
  have subset : key :: bearing ⊆ two := by
    refine List.cons_subset.mpr ⟨member,?_⟩
    intro item kept
    obtain ⟨old,yields⟩ := List.mem_filter.mp kept
    exact inside item old (by simpa using yields)
  obtain ⟨arranged,perm,sub⟩ := List.subperm_of_subset fresh subset
  have shorter := (sub.flatMap f).length_le
  rw [(perm.flatMap_right f).length_eq,List.flatMap_cons,List.length_append,flatMap_filter,same.length_eq] at shorter
  have positive := List.length_pos_iff.mpr some
  omega

-- Every document near the root gives all its lines, and none gives them twice.
def Complete (d : Downloader) (root : Text) (lines : List Text) : Prop :=
  ∃ documents : List Text, documents.Nodup ∧
    (∀ source, Within d.includes root d.maxIncludeDepth source → d.plainLines source ≠ [] → source ∈ documents) ∧
    lines.Perm (documents.flatMap d.plainLines)

theorem download_opened (d : Downloader) (root : Text) (sound : Sound d root) : ∃ lines,
    d.download root = (.ok lines,(walk d.includes (d.maxIncludeDepth+1) root []).nodes) ∧
    lines.Perm ((walk d.includes (d.maxIncludeDepth+1) root []).nodes.flatMap d.plainLines) := by
  obtain ⟨lines,new,walked,downloaded,perm⟩ := download_walk d (d.maxIncludeDepth+1) root sound []
  rw [List.append_nil] at walked downloaded
  rw [walked]
  exact ⟨lines,downloaded,perm⟩

-- A download is complete exactly when every near document with a line of its
-- own is the root or is included by a document that the depth-first walk opens
-- with includes to spare.
theorem includes_complete_exact (d : Downloader) (root : Text) (sound : Sound d root) :
    ∃ lines visited, d.download root = (.ok lines,visited) ∧
      (Complete d root lines ↔
        ∀ source, Within d.includes root d.maxIncludeDepth source → d.plainLines source ≠ [] →
          source = root ∨ ∃ base spare, (base,spare+1) ∈ walk d.includes (d.maxIncludeDepth+1) root [] ∧
            source ∈ d.includes base) := by
  obtain ⟨lines,downloaded,perm⟩ := download_opened d root sound
  have distinct := walk_nodup d.includes (d.maxIncludeDepth+1) root [] List.nodup_nil
  refine ⟨lines,_,downloaded,?_⟩
  constructor
  · intro ⟨documents,_,near,same⟩ source within some
    have opened := yields_inside d.plainLines distinct (perm.symm.trans same)
      (fun key member => near key (opened_within member)) (near source within some) some
    exact (opened_exact source).mp opened
  · intro reached
    exact ⟨_,distinct,fun source within some => (opened_exact source).mpr (reached source within some),perm⟩

-- On the include graph alone: nothing is lost if no chain of exactly
-- maxIncludeDepth distinct includes ends at a document that includes a near
-- document off the chain.
theorem includes_complete (d : Downloader) (root : Text) (sound : Sound d root)
    (clear : ∀ last chain source, Trail d.includes root d.maxIncludeDepth ((last,0) :: chain) →
      (((last,0) :: chain).map Prod.fst).Nodup → source ∈ d.includes last →
      Within d.includes root d.maxIncludeDepth source → source ∈ ((last,0) :: chain).map Prod.fst) :
    ∃ lines visited, d.download root = (.ok lines,visited) ∧ Complete d root lines := by
  obtain ⟨lines,downloaded,perm⟩ := download_opened d root sound
  refine ⟨lines,_,downloaded,_,walk_nodup d.includes (d.maxIncludeDepth+1) root [] List.nodup_nil,?_,perm⟩
  intro source within _
  exact opened_complete clear within (Nat.le_refl _)

end Completeness

section Finite

def Downloader.answers (d : Downloader) (source : Text) : Bool :=
  (d.read source).toOption.isSome &&
    (includePaths (d.document source)).all fun path => (d.resolveIncludePath path source).toOption.isSome

theorem ok_of_isSome {result : Except ε α} (some : result.toOption.isSome = true) : ∃ value, result = .ok value := by
  cases result with
  | error e => cases some
  | ok value => exact ⟨value,rfl⟩

-- A finite set of documents that answer and include only each other.
theorem sound_finite (d : Downloader) (documents : List Text) (first : root ∈ documents)
    (answers : ∀ source ∈ documents, d.answers source = true)
    (closed : ∀ source ∈ documents, ∀ next ∈ d.includes source, next ∈ documents) : Sound d root := by
  intro source reached
  have member : source ∈ documents := by
    induction reached with
    | refl => exact first
    | tail _ edge ih => exact closed _ ih _ edge
  have both := answers source member
  rw [Downloader.answers,Bool.and_eq_true,List.all_eq_true] at both
  exact ⟨ok_of_isSome both.1,fun path found => ok_of_isSome (both.2 path found)⟩

-- r includes a and b, a includes b, b includes x: with two levels b is first met
-- at the limit, behind a, and x is not looked for again when r includes b.
def crossing : FilterDownloader where
  fetchUrl source :=
    if source = "http://r".toList then .ok "!#include http://a\n!#include http://b".toList
    else if source = "http://a".toList then .ok "!#include http://b".toList
    else if source = "http://b".toList then .ok "||b^\n!#include http://x".toList
    else .ok "||x^".toList
  readFile _ := .error []
  newURL path _ := .ok path
  toLowerCase := lowerCase
  maxIncludeDepth := 2

theorem crossing_sound : Sound crossing.downloader "http://r".toList :=
  sound_finite crossing.downloader ["http://r".toList,"http://a".toList,"http://b".toList,"http://x".toList] (by decide)
    (by decide) (by decide)

theorem near_document_lost : Sound crossing.downloader "http://r".toList ∧
    Within crossing.downloader.includes "http://r".toList 2 "http://x".toList ∧
    crossing.downloader.plainLines "http://x".toList = ["||x^".toList] ∧
    (crossing.downloader.download "http://r".toList).1 = .ok ["||b^".toList] := by
  refine ⟨crossing_sound,?_,by decide,by decide⟩
  have middle : Within crossing.downloader.includes "http://r".toList 1 "http://b".toList := .step .start (by decide)
  exact .step middle (by decide)

theorem crossing_exact :
    ∃ lines visited, crossing.downloader.download "http://r".toList = (.ok lines,visited) ∧
      (Complete crossing.downloader "http://r".toList lines ↔
        ∀ source, Within crossing.downloader.includes "http://r".toList 2 source → crossing.downloader.plainLines source ≠ [] →
          source = "http://r".toList ∨ ∃ base spare,
            (base,spare+1) ∈ walk crossing.downloader.includes 3 "http://r".toList [] ∧
            source ∈ crossing.downloader.includes base) :=
  includes_complete_exact crossing.downloader "http://r".toList crossing_sound

end Finite

end AdblockCompiler.Download
