import AdblockCompiler.ChangeDetector
import AdblockCompiler.SourceHealthMonitor

-- Downloads that go through the filter list cache of an adapter.
namespace AdblockCompiler.CachingDownloader
open JsText KeyedRows StorageAdapters SourceRecords ChangeDetector SourceHealthMonitor

structure CachingOptions where
  enabled : Bool
  ttl : Int
  detectChanges : Bool
  monitorHealth : Bool
  forceRefresh : Bool

def CachingOptions.default : CachingOptions := ⟨true,3600000,true,true,false⟩

structure DownloadResult where
  content : List Text
  fromCache : Bool
  hash : Text
  duration : Int
  hasChanged : Option Bool
  ruleCountDelta : Option Int

-- called is history: whether the wrapped downloader was asked.
structure Outcome where
  db : Database SourceRecord
  called : Bool
  result : Except Thrown DownloadResult

def maxRecentAttempts : Nat := 10

-- The wrapped downloader answers after some time; hashContent is SHA-256.
section Downloads

variable (adapter : Adapter) (options : CachingOptions) (hashContent : List Text → Text)

def recordHealth (db : Database SourceRecord) (now : Int) (source : Text) (attempt : SourceAttempt) : Database SourceRecord :=
  if options.monitorHealth then recordAttempt adapter db now maxRecentAttempts source attempt else db

def recordChanges (db : Database SourceRecord) (now : Int) (source : Text) (content : List Text) (hash : Text) :
    Database SourceRecord × Bool × Int :=
  if options.detectChanges then
    let (db,change) := detectAndStore adapter db now source content hash none
    let db := if change.hasChanged ∧ change.ruleCountDelta.natAbs > 100 then archiveSnapshot adapter db now change.current else db
    (db,change.hasChanged,change.ruleCountDelta)
  else (db,false,0)

def fetchFresh (db : Database SourceRecord) (now : Int) (source : Text) (fetched : Except Thrown (List Text)) (elapsed : Nat) : Outcome :=
  let later := now+elapsed
  match fetched with
  | .error message =>
    ⟨recordHealth adapter options db later source ⟨later,false,elapsed,some message,none,none⟩,true,.error message⟩
  | .ok content =>
    let hash := hashContent content
    let db := if options.enabled then (adapter.cacheFilterList db later source content hash none (some options.ttl)).1 else db
    let (db,hasChanged,ruleCountDelta) := recordChanges adapter options db later source content hash
    let db := recordHealth adapter options db later source ⟨later,true,elapsed,none,some content.length,none⟩
    ⟨db,true,.ok ⟨content,false,hash,elapsed,some hasChanged,some ruleCountDelta⟩⟩

def checkCache (db : Database SourceRecord) (now : Int) (source : Text) : Database SourceRecord × Option CacheEntry :=
  if options.enabled && !options.forceRefresh then adapter.getCachedFilterList db now source else (db,none)

def downloadWithMetadata (db : Database SourceRecord) (now : Int) (source : Text) (fetched : Except Thrown (List Text)) (elapsed : Nat) :
    Outcome :=
  match checkCache adapter options db now source with
  | (db,some cached) => ⟨db,false,.ok ⟨cached.content,true,cached.hash,0,none,none⟩⟩
  | (db,none) => fetchFresh adapter options hashContent db now source fetched elapsed

def isCached (db : Database SourceRecord) (now : Int) (source : Text) : Database SourceRecord × Bool :=
  let (db,cached) := adapter.getCachedFilterList db now source
  (db,cached.isSome)

def invalidateCache (db : Database SourceRecord) (source : Text) : Database SourceRecord :=
  (adapter.delete db ["cache".toList,"filters".toList,source]).1

inductive Op where
  | download (source : Text) (fetched : Except Thrown (List Text)) (elapsed : Nat)
  | isCached (source : Text)
  | invalidateCache (source : Text)
  | getSourceHealth (source : Text)
  | getLastSnapshot (source : Text)
  | advance (ms : Nat)

def perform (s : Store SourceRecord) : Op → Store SourceRecord
  | .download source fetched elapsed =>
    let outcome := downloadWithMetadata adapter options hashContent s.db s.now source fetched elapsed
    ⟨outcome.db,if outcome.called then s.now+elapsed else s.now⟩
  | .isCached source => { s with db := (isCached adapter s.db s.now source).1 }
  | .invalidateCache source => { s with db := invalidateCache adapter s.db source }
  | .getSourceHealth source => { s with db := (getHealthMetrics adapter s.db s.now source).1 }
  | .getLastSnapshot source => { s with db := (getLastSnapshot adapter s.db s.now source).1 }
  | .advance ms => { s with now := s.now+ms }

def Op.downloads (source : Text) : Op → Bool
  | .download other _ _ => other = source
  | _ => false

-- Between an invalidation and the next download of its source the source is not
-- cached, and that download asks the wrapped downloader; other sources keep what
-- is cached of them.
structure TakesEffect (s : Store SourceRecord) (source : Text) : Prop where
  others : ∀ other, other ≠ source → (invalidateCache adapter s.db source).filterCache.find other = s.db.filterCache.find other
  uncached : ∀ between : List Op, (∀ op ∈ between, op.downloads source = false) →
    let t := between.foldl (perform adapter options hashContent) { s with db := invalidateCache adapter s.db source }
    (isCached adapter t.db t.now source).2 = false
  fresh : ∀ between : List Op, (∀ op ∈ between, op.downloads source = false) →
    let t := between.foldl (perform adapter options hashContent) { s with db := invalidateCache adapter s.db source }
    ∀ fetched elapsed, (downloadWithMetadata adapter options hashContent t.db t.now source fetched elapsed).called = true ∧
      ∀ content, fetched = .ok content → ∃ result,
        (downloadWithMetadata adapter options hashContent t.db t.now source fetched elapsed).result = .ok result ∧
          result.fromCache = false ∧ result.content = content

end Downloads

-- What only reads or writes entries leaves the filter lists alone.
theorem set_filters (adapter : Adapter) (db : Database SourceRecord) (now : Int) (key : List Text) (value : SourceRecord) (ttlMs : Option Int) :
    (adapter.set db now key value ttlMs).1.filterCache = db.filterCache := by
  rw [set_exact]
  apply store_filters

theorem get_filters (adapter : Adapter) (db : Database SourceRecord) (now : Int) (key : List Text) :
    (adapter.get db now key).1.filterCache = db.filterCache := by
  rw [get_exact]
  apply read_filters

theorem invalidate_filters (adapter : Adapter) (db : Database SourceRecord) (source : Text) :
    (invalidateCache adapter db source).filterCache = db.filterCache := by
  rw [invalidateCache,delete_exact]
  apply remove_filters

theorem lastSnapshot_filters (adapter : Adapter) (db : Database SourceRecord) (now : Int) (source : Text) :
    (getLastSnapshot adapter db now source).1.filterCache = db.filterCache := get_filters adapter db now _

theorem healthMetrics_filters (adapter : Adapter) (db : Database SourceRecord) (now : Int) (source : Text) :
    (getHealthMetrics adapter db now source).1.filterCache = db.filterCache := get_filters adapter db now _

theorem detectChanges_filters (adapter : Adapter) (db : Database SourceRecord) (now : Int) (source : Text) (content : List Text) (hash : Text)
    (etag : Option Text) : (detectChanges adapter db now source content hash etag).1.filterCache = db.filterCache := by
  unfold detectChanges
  dsimp only
  split <;> apply lastSnapshot_filters

theorem detectAndStore_filters (adapter : Adapter) (db : Database SourceRecord) (now : Int) (source : Text) (content : List Text) (hash : Text)
    (etag : Option Text) : (detectAndStore adapter db now source content hash etag).1.filterCache = db.filterCache :=
  (set_filters _ _ _ _ _ _).trans (detectChanges_filters _ _ _ _ _ _ _)

theorem recordChanges_filters (adapter : Adapter) (options : CachingOptions) (db : Database SourceRecord) (now : Int) (source : Text)
    (content : List Text) (hash : Text) : (recordChanges adapter options db now source content hash).1.filterCache = db.filterCache := by
  unfold recordChanges
  split
  · dsimp only
    split
    · exact (set_filters _ _ _ _ _ _).trans (detectAndStore_filters _ _ _ _ _ _ _)
    · apply detectAndStore_filters
  · rfl

theorem recordHealth_filters (adapter : Adapter) (options : CachingOptions) (db : Database SourceRecord) (now : Int) (source : Text)
    (attempt : SourceAttempt) : (recordHealth adapter options db now source attempt).filterCache = db.filterCache := by
  unfold recordHealth
  split
  · exact (set_filters _ _ _ _ _ _).trans (healthMetrics_filters _ _ _ _)
  · rfl

theorem fetchFresh_other (adapter : Adapter) (options : CachingOptions) (hashContent : List Text → Text) (db : Database SourceRecord) (now : Int)
    (fetched : Except Thrown (List Text)) (elapsed : Nat) (differ : other ≠ source) :
    (fetchFresh adapter options hashContent db now source fetched elapsed).db.filterCache.find other = db.filterCache.find other := by
  unfold fetchFresh
  cases fetched with
  | error message => exact congrArg (·.find other) (recordHealth_filters _ _ _ _ _ _)
  | ok content =>
    dsimp only
    rw [recordHealth_filters,recordChanges_filters]
    split
    · cases adapter <;> exact find_filter_store _ _ _ _ _ _ differ
    · rfl

-- A source of which nothing is cached that can still be read.
def Stale (source : Text) (s : Store SourceRecord) : Prop :=
  ∀ row, s.db.filterCache.find source = some row → expired s.now row.expiresAt = true

theorem stale_exact : Stale source s ↔ (readFilterList s.db s.now source).2 = none := by
  rw [filter_value,Option.map_eq_none_iff,Option.filter_eq_none_iff]
  simp [Stale]

theorem expired_later (late : expired now expiresAt = true) (passed : now ≤ later) : expired later expiresAt = true := by
  cases expiresAt with
  | none => cases late
  | some instant =>
    have before : instant < now := of_decide_eq_true late
    exact decide_eq_true (lt_of_lt_of_le before passed)

theorem stale_kept {s t : Store SourceRecord} (stale : Stale source s) (passed : s.now ≤ t.now)
    (fewer : ∀ row, t.db.filterCache.find source = some row → s.db.filterCache.find source = some row) : Stale source t :=
  fun row found => expired_later (stale row (fewer row found)) passed

-- Reading a list deletes it or leaves it.
theorem cached_fewer (adapter : Adapter) (db : Database SourceRecord) (now : Int) (source : Text)
    (found : (adapter.getCachedFilterList db now source).1.filterCache.find text = some row) : db.filterCache.find text = some row := by
  rw [getCached_exact,find_filter_read] at found
  split at found
  · exact (Option.filter_eq_some_iff.mp found).1
  · exact found

theorem check_fewer (adapter : Adapter) (options : CachingOptions) (db : Database SourceRecord) (now : Int) (source : Text)
    (found : (checkCache adapter options db now source).1.filterCache.find text = some row) : db.filterCache.find text = some row := by
  unfold checkCache at found
  split at found
  · exact cached_fewer adapter db now source found
  · exact found

theorem download_fewer (adapter : Adapter) (options : CachingOptions) (hashContent : List Text → Text) (db : Database SourceRecord) (now : Int)
    (fetched : Except Thrown (List Text)) (elapsed : Nat) (differ : other ≠ source)
    (found : (downloadWithMetadata adapter options hashContent db now source fetched elapsed).db.filterCache.find other = some row) :
    db.filterCache.find other = some row := by
  refine check_fewer adapter options db now source ?_
  unfold downloadWithMetadata at found
  split at found
  · rename_i after cached equal
    rw [equal]
    exact found
  · rename_i after equal
    rw [fetchFresh_other adapter options hashContent _ now fetched elapsed differ] at found
    rw [equal]
    exact found

theorem stale_step (adapter : Adapter) (options : CachingOptions) (hashContent : List Text → Text) (stale : Stale source s)
    (spared : Op.downloads source op = false) : Stale source (perform adapter options hashContent s op) := by
  cases op with
  | download other fetched elapsed =>
    have differ : source ≠ other := fun same => of_decide_eq_false spared same.symm
    refine stale_kept stale ?_ fun row found => download_fewer adapter options hashContent s.db s.now fetched elapsed differ found
    unfold perform
    dsimp only
    split
    · omega
    · exact Int.le_refl _
  | isCached other => exact stale_kept stale (Int.le_refl _) fun row found => cached_fewer adapter s.db s.now other found
  | invalidateCache other =>
    refine stale_kept stale (Int.le_refl _) fun row found => ?_
    rwa [perform,invalidate_filters] at found
  | getSourceHealth other =>
    refine stale_kept stale (Int.le_refl _) fun row found => ?_
    rwa [perform,healthMetrics_filters] at found
  | getLastSnapshot other =>
    refine stale_kept stale (Int.le_refl _) fun row found => ?_
    rwa [perform,lastSnapshot_filters] at found
  | advance ms => exact stale_kept stale (Int.le_add_of_nonneg_right (Int.natCast_nonneg ms)) fun row found => found

theorem stale_run (adapter : Adapter) (options : CachingOptions) (hashContent : List Text → Text) (between : List Op) (stale : Stale source s)
    (spared : ∀ op ∈ between, op.downloads source = false) : Stale source (between.foldl (perform adapter options hashContent) s) := by
  induction between generalizing s with
  | nil => exact stale
  | cons op rest ih =>
    obtain ⟨here,later⟩ := List.forall_mem_cons.mp spared
    exact ih (stale_step adapter options hashContent stale here) later

theorem stale_uncached (adapter : Adapter) (stale : Stale source s) : (isCached adapter s.db s.now source).2 = false := by
  rw [isCached,getCached_exact]
  exact congrArg Option.isSome (stale_exact.mp stale)

theorem stale_download (adapter : Adapter) (options : CachingOptions) (hashContent : List Text → Text) (stale : Stale source s)
    (fetched : Except Thrown (List Text)) (elapsed : Nat) : ∃ db, downloadWithMetadata adapter options hashContent s.db s.now source fetched elapsed =
      fetchFresh adapter options hashContent db s.now source fetched elapsed := by
  have missed : (checkCache adapter options s.db s.now source).2 = none := by
    unfold checkCache
    split
    · rw [getCached_exact]
      exact stale_exact.mp stale
    · rfl
  unfold downloadWithMetadata
  split
  · rename_i db cached equal
    rw [equal] at missed
    cases missed
  · rename_i db equal
    exact ⟨db,rfl⟩

theorem fetchFresh_fresh (adapter : Adapter) (options : CachingOptions) (hashContent : List Text → Text) (db : Database SourceRecord) (now : Int)
    (source : Text) (fetched : Except Thrown (List Text)) (elapsed : Nat) :
    (fetchFresh adapter options hashContent db now source fetched elapsed).called = true ∧
      ∀ content, fetched = .ok content → ∃ result, (fetchFresh adapter options hashContent db now source fetched elapsed).result = .ok result ∧
        result.fromCache = false ∧ result.content = content := by
  cases fetched with
  | error message => exact ⟨rfl,nofun⟩
  | ok received =>
    refine ⟨rfl,?_⟩
    rintro content ⟨⟩
    exact ⟨_,rfl,rfl,rfl⟩

theorem invalidation_exact (adapter : Adapter) (options : CachingOptions) (hashContent : List Text → Text) (s : Store SourceRecord) (source : Text) :
    TakesEffect adapter options hashContent s source ↔
      ∀ row, s.db.filterCache.find source = some row → expired s.now row.expiresAt = true := by
  constructor
  · intro effect
    have uncached : (isCached adapter (invalidateCache adapter s.db source) s.now source).2 = false := effect.uncached [] nofun
    rw [isCached,getCached_exact] at uncached
    have none : Stale source { s with db := invalidateCache adapter s.db source } :=
      stale_exact.mpr (Option.isSome_eq_false_iff.mp uncached |> Option.isNone_iff_eq_none.mp)
    intro row found
    exact none row ((congrArg (·.find source) (invalidate_filters adapter s.db source)).trans found)
  · intro stale
    have begins : Stale source { s with db := invalidateCache adapter s.db source } := by
      intro row found
      exact stale row ((congrArg (·.find source) (invalidate_filters adapter s.db source)).symm.trans found)
    refine ⟨?_,?_,?_⟩
    · intro other _
      rw [invalidate_filters]
    · intro between spared
      exact stale_uncached adapter (stale_run adapter options hashContent between begins spared)
    · intro between spared
      dsimp only
      intro fetched elapsed
      obtain ⟨db,equal⟩ := stale_download adapter options hashContent (stale_run adapter options hashContent between begins spared) fetched elapsed
      rw [equal]
      apply fetchFresh_fresh

-- A list is downloaded, and its source invalidated right after.
def justDownloaded (adapter : Adapter) : Store SourceRecord :=
  perform adapter .default (fun _ => "hash".toList) ⟨.empty,0⟩ (.download "a".toList (.ok ["rule".toList]) 5)

theorem justDownloaded_cached : ¬TakesEffect (.d1 .sqlite .default) .default (fun _ => "hash".toList) (justDownloaded (.d1 .sqlite .default)) "a".toList ∧
    ¬TakesEffect (.hyperdrive .postgres .default) .default (fun _ => "hash".toList) (justDownloaded (.hyperdrive .postgres .default)) "a".toList := by
  constructor
  · intro effect
    exact absurd (effect.uncached [] nofun) (by decide)
  · intro effect
    exact absurd (effect.uncached [] nofun) (by decide)

end AdblockCompiler.CachingDownloader
