import AdblockCompiler.ExpiringRows
import AdblockCompiler.StorageAgreement

-- What deletes many rows at a time: clearExpired, which timers call whenever they
-- fire, and clearCache. Either sends one statement to each of the two tables.
namespace AdblockCompiler.StorageCleanup
open JsText KeyedRows StorageAdapters StorageAgreement ExpiringRows

variable {α : Type}

-- deleteMany on a table, with the number of its rows that are gone.
def clearEntries (db : Database α) (gone : StorageRow α → Bool) : Database α × Nat :=
  ({ db with storageEntry := db.storageEntry.deleteAll gone },db.storageEntry.rows.countP gone)

def clearLists (db : Database α) (gone : FilterCacheRow → Bool) : Database α × Nat :=
  ({ db with filterCache := db.filterCache.deleteAll gone },db.filterCache.rows.countP gone)

def clearBoth (db : Database α) (entries : StorageRow α → Bool) (lists : FilterCacheRow → Bool) : Database α × Nat :=
  let storageResult := clearEntries db entries
  let cacheResult := clearLists storageResult.1 lists
  (cacheResult.1,storageResult.2+cacheResult.2)

def clearExpired (db : Database α) (now : Int) : Database α × Nat :=
  clearBoth db (fun row => expired now row.expiresAt) fun row => expired now row.expiresAt

def isCached (prisma : PrismaClient) (row : StorageRow α) : Bool := prisma.startsWith "cache/".toList row.key

def clearCache (prisma : PrismaClient) (db : Database α) : Database α × Nat := clearBoth db (isCached prisma) fun _ => true

def cacheEntry (row : FilterCacheRow) : CacheEntry := ⟨row.source,row.content,row.hash,row.etag⟩

structure StorageStats where
  entryCount : Nat
  expiredCount : Nat
  deriving DecidableEq

def getStats (db : Database α) (now : Int) : StorageStats :=
  ⟨db.storageEntry.rows.length,db.storageEntry.rows.countP fun row => expired now row.expiresAt⟩

-- A statement of clearExpired names the instant at which clearExpired was
-- called; others may come in between.
inductive Event (α : Type) where
  | operation (op : Op α)
  | clearExpiredEntries (ago : Nat)
  | clearExpiredLists (ago : Nat)
  | clearCachedEntries
  | clearCachedLists

def after (adapter : Adapter) (s : Store α) : Event α → Store α
  | .operation op => ⟨outcome adapter s.db s.now op,s.now+elapsed op⟩
  | .clearExpiredEntries ago => ⟨(clearEntries s.db fun row => expired (s.now-ago) row.expiresAt).1,s.now⟩
  | .clearExpiredLists ago => ⟨(clearLists s.db fun row => expired (s.now-ago) row.expiresAt).1,s.now⟩
  | .clearCachedEntries => ⟨(clearEntries s.db (isCached adapter.prisma)).1,s.now⟩
  | .clearCachedLists => ⟨(clearLists s.db fun _ => true).1,s.now⟩

def Event.clearsExpired : Event α → Bool
  | .clearExpiredEntries _ | .clearExpiredLists _ => true
  | _ => false

-- The data and the keys of an answer, without the times of the row.
inductive Shown (α : Type) where
  | entry (data : Option α)
  | entries (items : List (List Text × α))
  | cached (entry : Option CacheEntry)
  | written
  deriving DecidableEq

def shown : Answer α → Shown α
  | .entry entry => .entry (entry.map StorageEntry.data)
  | .entries items => .entries (items.map fun item => (item.1,item.2.data))
  | .cached entry => .cached entry
  | .written => .written

-- The data and the keys that the operations return, one after another.
def answers (adapter : Adapter) (s : Store α) : List (Event α) → List (Shown α)
  | [] => []
  | .operation op :: rest => shown (answer adapter s.db s.now op) :: answers adapter (after adapter s (.operation op)) rest
  | event :: rest => answers adapter (after adapter s event) rest

-- Two databases of which the same can be read from an instant on.
structure SameReads (now : Int) (one two : Database α) : Prop where
  entries : Alike StorageRow.data StorageRow.expiresAt now one.storageEntry two.storageEntry
  lists : Alike cacheEntry FilterCacheRow.expiresAt now one.filterCache two.filterCache

section Operations
variable (adapter : Adapter) {one two : Database α} {now : Int}

theorem reads_later (later : now ≤ instant) (same : SameReads now one two) : SameReads instant one two :=
  ⟨alike_later later same.entries,alike_later later same.lists⟩

theorem store_reads (key : List Text) (value : α) (expiresAt : Option Int) (same : SameReads now one two) :
    SameReads now (storeEntry one now key value expiresAt) (storeEntry two now key value expiresAt) := by
  refine ⟨fun text => ?_,same.lists⟩
  have stored (db : Database α) : view StorageRow.data StorageRow.expiresAt (storeEntry db now key value expiresAt).storageEntry now text =
      if text = serializeKey key then (if past now expiresAt then none else some (value,expiresAt))
      else view StorageRow.data StorageRow.expiresAt db.storageEntry now text :=
    view_put db.storageEntry ⟨serializeKey key,value,now,now,expiresAt,none⟩
      (fun row => { row with data := value, updatedAt := now, expiresAt := expiresAt }) (fun _ mine => mine) (fun _ _ => rfl) (fun _ => rfl) text
  rw [stored,stored,same.entries text]

theorem remove_reads (key : List Text) (same : SameReads now one two) : SameReads now (removeEntry one key) (removeEntry two key) := by
  refine ⟨fun text => ?_,same.lists⟩
  unfold removeEntry
  rw [view_delete,view_delete,same.entries text]

theorem storeList_reads (source : Text) (content : List Text) (hash : Text) (etag : Option Text) (expiresAt : Option Int)
    (same : SameReads now one two) :
    SameReads now (storeFilterList one now source content hash etag expiresAt) (storeFilterList two now source content hash etag expiresAt) := by
  refine ⟨same.entries,fun text => ?_⟩
  have named : ∀ row : FilterCacheRow, row.source = source → cacheEntry { row with
      content := content, hash := hash, etag := etag, updatedAt := now, expiresAt := expiresAt } = ⟨source,content,hash,etag⟩ := by
    intro row mine
    subst mine
    rfl
  have stored (db : Database α) : view cacheEntry FilterCacheRow.expiresAt
      (storeFilterList db now source content hash etag expiresAt).filterCache now text =
      if text = source then (if past now expiresAt then none else some (⟨source,content,hash,etag⟩,expiresAt))
      else view cacheEntry FilterCacheRow.expiresAt db.filterCache now text :=
    view_put db.filterCache ⟨source,content,hash,etag,now,now,expiresAt⟩ (fun row => { row with
      content := content, hash := hash, etag := etag, updatedAt := now, expiresAt := expiresAt }) (fun _ mine => mine) named (fun _ => rfl) text
  rw [stored,stored,same.lists text]

-- A read deletes nothing that could still be read.
theorem read_reads (entryOf : StorageRow α → StorageEntry α) (db : Database α) (now : Int) (key : List Text) :
    SameReads now (readEntry entryOf db now key).1 db := by
  refine ⟨fun text => ?_,fun source => by rw [read_filters]⟩
  unfold view
  rw [find_read]
  split
  · rw [Option.filter_filter]
    simp only [expired,past,Bool.and_self]
  · rfl

theorem readList_reads (db : Database α) (now : Int) (source : Text) : SameReads now (readFilterList db now source).1 db := by
  refine ⟨fun text => by rw [list_entries],fun text => ?_⟩
  unfold view
  rw [find_filter_read]
  split
  · rw [Option.filter_filter]
    simp only [expired,past,Bool.and_self]
  · rfl

theorem reads_trans {three : Database α} (first : SameReads now one two) (second : SameReads now two three) : SameReads now one three :=
  ⟨fun text => (first.entries text).trans (second.entries text),fun source => (first.lists source).trans (second.lists source)⟩

theorem reads_symm (same : SameReads now one two) : SameReads now two one :=
  ⟨fun text => (same.entries text).symm,fun source => (same.lists source).symm⟩

theorem outcome_reads (same : SameReads now one two) (op : Op α) : SameReads now (outcome adapter one now op) (outcome adapter two now op) := by
  cases op with
  | set key value ttlMs =>
    simp only [outcome,set_exact]
    exact store_reads key value _ same
  | get key =>
    simp only [outcome,get_exact]
    exact reads_trans (read_reads _ one now key) (reads_trans same (reads_symm (read_reads _ two now key)))
  | delete key =>
    simp only [outcome,delete_exact]
    exact remove_reads key same
  | list options => exact same
  | cacheFilterList source content hash etag ttlMs =>
    cases adapter with
    | d1 prisma config => exact storeList_reads source content hash etag _ same
    | hyperdrive prisma config => exact storeList_reads source content hash etag _ same
  | getCachedFilterList source =>
    simp only [outcome,getCached_exact]
    exact reads_trans (readList_reads one now source) (reads_trans same (reads_symm (readList_reads two now source)))
  | advance ms => exact same

theorem get_reads (same : SameReads now one two) (key : List Text) :
    (readEntry adapter.entry one now key).2.map StorageEntry.data = (readEntry adapter.entry two now key).2.map StorageEntry.data := by
  have shown (db : Database α) : (readEntry adapter.entry db now key).2.map StorageEntry.data =
      (view StorageRow.data StorageRow.expiresAt db.storageEntry now (serializeKey key)).map Prod.fst := by
    rw [read_value,Option.map_map,view,Option.map_map]
    refine congrArg (Option.map · _) (funext fun row => ?_)
    exact entry_data adapter row
  rw [shown,shown,same.entries]

-- The adapters look at nothing but the key of a row.
theorem wanted_key (options : QueryOptions) : ∃ wanted : Text → Bool, ∀ row : StorageRow α, adapter.wanted options row = wanted row.key := by
  cases adapter with
  | d1 prisma config => exact ⟨fun text => options.prefixKey.all fun stem => prisma.startsWith (serializeKey stem ++ ['/']) text,fun _ => rfl⟩
  | hyperdrive prisma config =>
    exact ⟨fun text => (options.prefixKey.all fun stem => prisma.startsWith (serializeKey stem) text) &&
      (options.startKey.all fun first => serializeKey first ≤ text) && options.endKey.all fun last => text ≤ serializeKey last,fun _ => rfl⟩

theorem list_reads (same : SameReads now one two) (options : QueryOptions) :
    (adapter.list one now options).map (fun item => (item.1,item.2.data)) =
      (adapter.list two now options).map fun item => (item.1,item.2.data) := by
  obtain ⟨wanted,keyed⟩ : ∃ wanted : Text → Bool, ∀ row : StorageRow α, adapter.wanted options row = wanted row.key :=
    wanted_key adapter options
  have shown (db : Database α) : (adapter.list db now options).map (fun item => (item.1,item.2.data)) =
      ((db.storageEntry.select (fun row => fresh now row.expiresAt && wanted row.key) options.reverse options.limit).map
        fun row => (row.key,row.data)).map fun pair => (deserializeKey pair.1,pair.2) := by
    have chosen : (fun row : StorageRow α => unexpired now row.expiresAt && adapter.wanted options row) =
        fun row => fresh now row.expiresAt && wanted row.key := funext fun row => congrArg (_ && ·) (keyed row)
    rw [list_exact,queryEntries,chosen,List.map_map,List.map_map]
    refine List.map_congr_left ?_
    intro row _
    exact congrArg (deserializeKey row.key,·) (entry_data adapter row)
  rw [shown,shown,query_alike same.entries]

theorem answer_reads (same : SameReads now one two) (op : Op α) :
    shown (answer adapter one now op) = shown (answer adapter two now op) := by
  cases op with
  | get key =>
    simp only [answer,get_exact,shown]
    rw [get_reads adapter same key]
  | list options => exact congrArg Shown.entries (list_reads adapter same options)
  | getCachedFilterList source =>
    have read (db : Database α) : (readFilterList db now source).2 =
        (view cacheEntry FilterCacheRow.expiresAt db.filterCache now source).map Prod.fst := by
      rw [filter_value,view,Option.map_map]
      rfl
    simp only [answer,getCached_exact,read,same.lists source]
  | set key value ttlMs | delete key | cacheFilterList source content hash etag ttlMs | advance ms => rfl

end Operations

section Runs
variable (adapter : Adapter)

theorem elapsed_later (now : Int) (op : Op α) : now ≤ now+elapsed op := by omega

theorem after_reads {s t : Store α} (clock : s.now = t.now) (same : SameReads s.now s.db t.db) (event : Event α) :
    (after adapter s event).now = (after adapter t event).now ∧
      SameReads (after adapter s event).now (after adapter s event).db (after adapter t event).db := by
  obtain ⟨one,now⟩ := s
  obtain ⟨two,instant⟩ := t
  dsimp only at clock same
  subst clock
  refine ⟨by cases event <;> rfl,?_⟩
  cases event with
  | operation op => exact reads_later (elapsed_later now op) (outcome_reads adapter same op)
  | clearExpiredEntries ago =>
    refine ⟨fun text => ?_,same.lists⟩
    have earlier : now-(ago : Int) ≤ now := by omega
    exact (view_collected _ earlier text).trans ((same.entries text).trans (view_collected _ earlier text).symm)
  | clearExpiredLists ago =>
    refine ⟨same.entries,fun source => ?_⟩
    have earlier : now-(ago : Int) ≤ now := by omega
    exact (view_collected _ earlier source).trans ((same.lists source).trans (view_collected _ earlier source).symm)
  | clearCachedEntries =>
    refine ⟨fun text => ?_,same.lists⟩
    have cleared (db : Database α) : view StorageRow.data StorageRow.expiresAt (clearEntries db (isCached adapter.prisma)).1.storageEntry
        now text = _ :=
      view_deleteAll db.storageEntry (isCached adapter.prisma) (fun text => adapter.prisma.startsWith "cache/".toList text) (fun _ => rfl) text
    exact (cleared one).trans ((congrArg _ (same.entries text)).trans (cleared two).symm)
  | clearCachedLists =>
    refine ⟨same.entries,fun source => ?_⟩
    have cleared (db : Database α) : view cacheEntry FilterCacheRow.expiresAt (clearLists db fun _ => true).1.filterCache now source = _ :=
      view_deleteAll db.filterCache (fun _ => true) (fun _ => true) (fun _ => rfl) source
    exact (cleared one).trans (cleared two).symm

-- Stores of which the same can be read answer alike for ever.
theorem answers_reads {s t : Store α} (clock : s.now = t.now) (same : SameReads s.now s.db t.db) (events : List (Event α)) :
    answers adapter s events = answers adapter t events := by
  induction events generalizing s t with
  | nil => rfl
  | cons event rest ih =>
    obtain ⟨clock',same'⟩ := after_reads adapter clock same event
    have later := ih clock' same'
    cases event with
    | operation op =>
      have now := answer_reads adapter same op
      rw [answers,answers,later,now,clock]
    | clearExpiredEntries ago | clearExpiredLists ago | clearCachedEntries | clearCachedLists => exact later

theorem cleared_reads (s : Store α) {event : Event α} (clears : event.clearsExpired = true) :
    (after adapter s event).now = s.now ∧ SameReads s.now (after adapter s event).db s.db := by
  cases event with
  | clearExpiredEntries ago => exact ⟨rfl,fun text => view_collected _ (by omega) text,fun _ => rfl⟩
  | clearExpiredLists ago => exact ⟨rfl,fun _ => rfl,fun source => view_collected _ (by omega) source⟩
  | operation op | clearCachedEntries | clearCachedLists => cases clears

-- Whenever the statements of clearExpired come in between, the operations return
-- the data and the keys that they return without them.
theorem cleanup_unseen (s : Store α) (events : List (Event α)) :
    answers adapter s events = answers adapter s (events.filter fun event => !event.clearsExpired) := by
  induction events generalizing s with
  | nil => rfl
  | cons event rest ih =>
    cases clears : event.clearsExpired with
    | true =>
      obtain ⟨clock,same⟩ := cleared_reads adapter s clears
      rw [List.filter_cons_of_neg (by simp [clears]),← ih s]
      have skipped := answers_reads adapter clock (clock ▸ same) rest
      cases event with
      | clearExpiredEntries ago | clearExpiredLists ago => exact skipped
      | operation op | clearCachedEntries | clearCachedLists => cases clears
    | false =>
      rw [List.filter_cons_of_pos (by simp [clears])]
      cases event with
      | operation op => rw [answers,answers,ih]
      | clearCachedEntries | clearCachedLists => exact ih _
      | clearExpiredEntries ago | clearExpiredLists ago => cases clears

end Runs

-- What a clean-up leaves, by the statistics.
theorem stats_cleared (db : Database α) (now : Int) :
    getStats (clearExpired db now).1 now = ⟨(getStats db now).entryCount-(getStats db now).expiredCount,0⟩ := by
  have parts := List.length_eq_countP_add_countP (l := db.storageEntry.rows) fun row => expired now row.expiresAt
  have left : (db.storageEntry.rows.filter fun row => !expired now row.expiresAt).length =
      db.storageEntry.rows.length-db.storageEntry.rows.countP fun row => expired now row.expiresAt := by
    rw [← List.countP_eq_length_filter]
    have others : (db.storageEntry.rows.countP fun row => !expired now row.expiresAt) =
        db.storageEntry.rows.countP fun row => decide ¬expired now row.expiresAt = true := by simp
    omega
  have none : (db.storageEntry.rows.filter fun row => !expired now row.expiresAt).countP (fun row => expired now row.expiresAt) = 0 := by
    rw [List.countP_eq_zero]
    intro row member
    simpa using (List.mem_filter.mp member).2
  exact congrArg₂ StorageStats.mk left none

-- A list kept for an hour, asked for before and after it has expired, with timers
-- in between.
def cachedHour : List (Event Text) :=
  [.operation (.cacheFilterList "https://lists.example/a.txt".toList ["||ads.example^".toList] "h".toList none none),.clearExpiredLists 0,
    .operation (.getCachedFilterList "https://lists.example/a.txt".toList),.operation (.advance 3600001),.clearExpiredLists 5,
    .clearExpiredEntries 5,.operation (.getCachedFilterList "https://lists.example/a.txt".toList)]

example : answers (.d1 .sqlite .default) ⟨.empty,0⟩ cachedHour =
    [.written,.cached (some ⟨"https://lists.example/a.txt".toList,["||ads.example^".toList],"h".toList,none⟩),.written,.cached none] := by
  decide

end AdblockCompiler.StorageCleanup
