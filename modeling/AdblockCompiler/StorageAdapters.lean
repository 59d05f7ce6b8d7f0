import AdblockCompiler.JsText
import AdblockCompiler.KeyedRows

-- The tables storage_entries and filter_cache, and the two adapters that reach
-- them through Prisma. A column of JSON text holds the value it is the text of.
namespace AdblockCompiler.StorageAdapters
open JsText KeyedRows

variable {α : Type}

def serializeKey (key : List Text) : Text := ['/'].intercalate key
def deserializeKey (key : Text) : List Text := key.splitOn '/'

structure StorageRow (α : Type) where
  key : Text
  data : α
  createdAt : Int
  updatedAt : Int
  expiresAt : Option Int
  tags : Option (List Text)

structure FilterCacheRow where
  source : Text
  content : List Text
  hash : Text
  etag : Option Text
  createdAt : Int
  updatedAt : Int
  expiresAt : Option Int

structure Database (α : Type) where
  storageEntry : Table (StorageRow.key (α := α))
  filterCache : Table FilterCacheRow.source

def Database.empty : Database α := ⟨⟨[],List.nodup_nil⟩,⟨[],List.nodup_nil⟩⟩

structure StorageEntry (α : Type) where
  data : α
  createdAt : Int
  updatedAt : Int
  expiresAt : Option Int
  tags : Option (List Text)
  deriving DecidableEq

structure CacheEntry where
  source : Text
  content : List Text
  hash : Text
  etag : Option Text
  deriving DecidableEq

structure QueryOptions where
  prefixKey : Option (List Text)
  limit : Option Int
  startKey : Option (List Text)
  endKey : Option (List Text)
  reverse : Bool

-- A read takes a row for expired only after its instant, a query already at it.
def expired (now : Int) (expiresAt : Option Int) : Bool := expiresAt.any (· < now)
def unexpired (now : Int) (expiresAt : Option Int) : Bool := expiresAt.all (now < ·)

-- upsert, findUnique, deleteMany and findMany as both adapters issue them.
def storeEntry (db : Database α) (now : Int) (key : List Text) (value : α) (expiresAt : Option Int) : Database α :=
  let create : StorageRow α := ⟨serializeKey key,value,now,now,expiresAt,none⟩
  let update (row : StorageRow α) := { row with data := value, updatedAt := now, expiresAt := expiresAt }
  { db with storageEntry := db.storageEntry.put create update fun _ named => named }

def removeEntry (db : Database α) (key : List Text) : Database α :=
  { db with storageEntry := db.storageEntry.delete (serializeKey key) fun _ => true }

def readEntry (view : StorageRow α → StorageEntry α) (db : Database α) (now : Int) (key : List Text) :
    Database α × Option (StorageEntry α) :=
  match db.storageEntry.find (serializeKey key) with
  | none => (db,none)
  | some row => if expired now row.expiresAt then (removeEntry db key,none) else (db,some (view row))

def queryEntries (view : StorageRow α → StorageEntry α) (wanted : StorageRow α → Bool) (db : Database α) (now : Int) (options : QueryOptions) :
    List (List Text × StorageEntry α) :=
  (db.storageEntry.select (fun row => unexpired now row.expiresAt && wanted row) options.reverse options.limit).map fun row =>
    (deserializeKey row.key,view row)

def storeFilterList (db : Database α) (now : Int) (source : Text) (content : List Text) (hash : Text) (etag : Option Text)
    (expiresAt : Option Int) : Database α :=
  let create : FilterCacheRow := ⟨source,content,hash,etag,now,now,expiresAt⟩
  let update (row : FilterCacheRow) := { row with content := content, hash := hash, etag := etag, updatedAt := now, expiresAt := expiresAt }
  { db with filterCache := db.filterCache.put create update fun _ named => named }

def readFilterList (db : Database α) (now : Int) (source : Text) : Database α × Option CacheEntry :=
  match db.filterCache.find source with
  | none => (db,none)
  | some row =>
    if expired now row.expiresAt then ({ db with filterCache := db.filterCache.delete source fun _ => true },none)
    else (db,some ⟨row.source,row.content,row.hash,row.etag⟩)

-- Prisma's filter startsWith: whether the database takes a key to begin with a
-- stem.
structure PrismaClient where
  startsWith (stem key : Text) : Bool

-- The key-ordered map that a caller may take the database for.
def PrismaClient.Literal (prisma : PrismaClient) : Prop := ∀ stem key, prisma.startsWith stem key = JsText.startsWith key stem

structure D1StorageConfig where
  defaultTtlMs : Int

namespace D1StorageAdapter

def computeExpiry (config : D1StorageConfig) (now : Int) (ttlMs : Option Int) : Option Int :=
  let ttl := ttlMs.getD config.defaultTtlMs
  if ttl = 0 ∨ ttl ≤ 0 then none else some (now+ttl)

def entry (row : StorageRow α) : StorageEntry α := ⟨row.data,row.createdAt,row.updatedAt,row.expiresAt,row.tags⟩

def set (config : D1StorageConfig) (db : Database α) (now : Int) (key : List Text) (value : α) (ttlMs : Option Int) :
    Database α × Bool := (storeEntry db now key value (computeExpiry config now ttlMs),true)

def get : Database α → Int → List Text → Database α × Option (StorageEntry α) := readEntry entry

def delete (db : Database α) (key : List Text) : Database α × Bool :=
  (removeEntry db key,(db.storageEntry.find (serializeKey key)).isSome)

-- start and end are not looked at.
def wanted (prisma : PrismaClient) (options : QueryOptions) (row : StorageRow α) : Bool :=
  options.prefixKey.all fun stem => prisma.startsWith (serializeKey stem ++ ['/']) row.key

def list (prisma : PrismaClient) (db : Database α) (now : Int) (options : QueryOptions) : List (List Text × StorageEntry α) :=
  queryEntries entry (wanted prisma options) db now options

def cacheFilterList (config : D1StorageConfig) (db : Database α) (now : Int) (source : Text) (content : List Text) (hash : Text)
    (etag : Option Text) (ttlMs : Option Int) : Database α × Bool :=
  (storeFilterList db now source content hash etag (computeExpiry config now ttlMs),true)

def getCachedFilterList : Database α → Int → Text → Database α × Option CacheEntry := readFilterList

end D1StorageAdapter

structure HyperdriveStorageConfig where
  defaultTtlMs : Int
  positive : 0 < defaultTtlMs

namespace HyperdriveStorageAdapter

def entry (row : StorageRow α) : StorageEntry α := ⟨row.data,row.createdAt,row.updatedAt,row.expiresAt,none⟩

def entryExpiry (now : Int) (ttlMs : Option Int) : Option Int := (ttlMs.filter (· ≠ 0)).map (now + ·)

def set (db : Database α) (now : Int) (key : List Text) (value : α) (ttlMs : Option Int) : Database α × Bool :=
  (storeEntry db now key value (entryExpiry now ttlMs),true)

def get : Database α → Int → List Text → Database α × Option (StorageEntry α) := readEntry entry

def delete (db : Database α) (key : List Text) : Database α × Bool := (removeEntry db key,true)

def wanted (prisma : PrismaClient) (options : QueryOptions) (row : StorageRow α) : Bool :=
  (options.prefixKey.all fun stem => prisma.startsWith (serializeKey stem) row.key) &&
    (options.startKey.all fun first => serializeKey first ≤ row.key) && options.endKey.all fun last => row.key ≤ serializeKey last

def list (prisma : PrismaClient) (db : Database α) (now : Int) (options : QueryOptions) : List (List Text × StorageEntry α) :=
  queryEntries entry (wanted prisma options) db now options

def listExpiry (config : HyperdriveStorageConfig) (now : Int) (ttlMs : Option Int) : Option Int :=
  some (now+ttlMs.getD config.defaultTtlMs)

def cacheFilterList (config : HyperdriveStorageConfig) (db : Database α) (now : Int) (source : Text) (content : List Text) (hash : Text)
    (etag : Option Text) (ttlMs : Option Int) : Database α × Bool :=
  (storeFilterList db now source content hash etag (listExpiry config now ttlMs),true)

def getCachedFilterList : Database α → Int → Text → Database α × Option CacheEntry := readFilterList

end HyperdriveStorageAdapter

-- IStorageAdapter, as the one or the other.
inductive Adapter where
  | d1 (prisma : PrismaClient) (config : D1StorageConfig)
  | hyperdrive (prisma : PrismaClient) (config : HyperdriveStorageConfig)

def Adapter.prisma : Adapter → PrismaClient
  | .d1 prisma _ | .hyperdrive prisma _ => prisma

def Adapter.set : Adapter → Database α → Int → List Text → α → Option Int → Database α × Bool
  | .d1 _ config => D1StorageAdapter.set config
  | .hyperdrive _ _ => HyperdriveStorageAdapter.set

def Adapter.get : Adapter → Database α → Int → List Text → Database α × Option (StorageEntry α)
  | .d1 _ _ => D1StorageAdapter.get
  | .hyperdrive _ _ => HyperdriveStorageAdapter.get

def Adapter.delete : Adapter → Database α → List Text → Database α × Bool
  | .d1 _ _ => D1StorageAdapter.delete
  | .hyperdrive _ _ => HyperdriveStorageAdapter.delete

def Adapter.list : Adapter → Database α → Int → QueryOptions → List (List Text × StorageEntry α)
  | .d1 prisma _ => D1StorageAdapter.list prisma
  | .hyperdrive prisma _ => HyperdriveStorageAdapter.list prisma

def Adapter.cacheFilterList : Adapter → Database α → Int → Text → List Text → Text → Option Text → Option Int → Database α × Bool
  | .d1 _ config => D1StorageAdapter.cacheFilterList config
  | .hyperdrive _ config => HyperdriveStorageAdapter.cacheFilterList config

def Adapter.getCachedFilterList : Adapter → Database α → Int → Text → Database α × Option CacheEntry
  | .d1 _ _ => D1StorageAdapter.getCachedFilterList
  | .hyperdrive _ _ => HyperdriveStorageAdapter.getCachedFilterList

theorem read_value (view : StorageRow α → StorageEntry α) (db : Database α) (now : Int) (key : List Text) :
    (readEntry view db now key).2 =
      ((db.storageEntry.find (serializeKey key)).filter fun row => !expired now row.expiresAt).map view := by
  unfold readEntry
  cases db.storageEntry.find (serializeKey key) with
  | none => rfl
  | some row => cases late : expired now row.expiresAt <;> simp [late]

theorem find_store (db : Database α) (now : Int) (key : List Text) (value : α) (expiresAt : Option Int) (text : Text) :
    (storeEntry db now key value expiresAt).storageEntry.find text =
      if text = serializeKey key then
        some ((db.storageEntry.find text).elim ⟨text,value,now,now,expiresAt,none⟩ fun row =>
          { row with data := value, updatedAt := now, expiresAt := expiresAt })
      else db.storageEntry.find text := by
  rw [storeEntry,find_put]
  split
  · rename_i named
    rw [named]
  · rfl

theorem find_remove (db : Database α) (key : List Text) (text : Text) :
    (removeEntry db key).storageEntry.find text = if text = serializeKey key then none else db.storageEntry.find text := by
  rw [removeEntry,find_delete]
  split
  · simp
  · rfl

theorem find_read (view : StorageRow α → StorageEntry α) (db : Database α) (now : Int) (key : List Text) (text : Text) :
    (readEntry view db now key).1.storageEntry.find text =
      if text = serializeKey key then (db.storageEntry.find text).filter fun row => !expired now row.expiresAt
      else db.storageEntry.find text := by
  unfold readEntry
  by_cases named : text = serializeKey key
  · subst named
    cases found : db.storageEntry.find (serializeKey key) with
    | none => simp [found]
    | some row => cases late : expired now row.expiresAt <;> simp [late,found,find_remove,Option.filter_some]
  · rw [if_neg named]
    split
    · rfl
    · split
      · rw [find_remove,if_neg named]
      · rfl

theorem store_row (member : row ∈ (storeEntry db now key value expiresAt).storageEntry.rows) :
    (row.key = serializeKey key ∧ row.data = value) ∨ row ∈ db.storageEntry.rows := by
  have found := find_exact.mpr ⟨member,rfl⟩
  rw [find_store] at found
  split at found
  · rename_i named
    refine .inl ⟨named,?_⟩
    rw [← Option.some.inj found]
    cases db.storageEntry.find row.key <;> rfl
  · exact .inr (find_exact.mp found).1

theorem remove_row {db : Database α} : row ∈ (removeEntry db key).storageEntry.rows ↔ row ∈ db.storageEntry.rows ∧ row.key ≠ serializeKey key := by
  simp [removeEntry,Table.delete]

theorem read_row (member : row ∈ (readEntry view db now key).1.storageEntry.rows) : row ∈ db.storageEntry.rows := by
  have found := find_exact.mpr ⟨member,rfl⟩
  rw [find_read] at found
  split at found
  · exact (find_exact.mp (Option.filter_eq_some_iff.mp found).1).1
  · exact (find_exact.mp found).1

theorem filter_value (db : Database α) (now : Int) (source : Text) :
    (readFilterList db now source).2 =
      ((db.filterCache.find source).filter fun row => !expired now row.expiresAt).map fun row => ⟨row.source,row.content,row.hash,row.etag⟩ := by
  unfold readFilterList
  cases db.filterCache.find source with
  | none => rfl
  | some row => cases late : expired now row.expiresAt <;> simp [late]

theorem find_filter_read (db : Database α) (now : Int) (source text : Text) :
    (readFilterList db now source).1.filterCache.find text =
      if text = source then (db.filterCache.find text).filter fun row => !expired now row.expiresAt else db.filterCache.find text := by
  unfold readFilterList
  by_cases named : text = source
  · subst named
    cases found : db.filterCache.find text with
    | none => simp [found]
    | some row => cases late : expired now row.expiresAt <;> simp [late,found,find_delete,Option.filter_some]
  · rw [if_neg named]
    split
    · rfl
    · split
      · exact (find_delete _ _ _ _).trans (if_neg named)
      · rfl

theorem find_filter_store (db : Database α) (now : Int) (content : List Text) (hash : Text) (etag : Option Text) (expiresAt : Option Int)
    (other : text ≠ source) : (storeFilterList db now source content hash etag expiresAt).filterCache.find text = db.filterCache.find text :=
  (find_put _ _ _ _ _).trans (if_neg other)

-- Entries and filter lists are kept in two tables.
theorem store_filters (db : Database α) (now : Int) (key : List Text) (value : α) (expiresAt : Option Int) :
    (storeEntry db now key value expiresAt).filterCache = db.filterCache := rfl

theorem remove_filters (db : Database α) (key : List Text) : (removeEntry db key).filterCache = db.filterCache := rfl

theorem read_filters (view : StorageRow α → StorageEntry α) (db : Database α) (now : Int) (key : List Text) :
    (readEntry view db now key).1.filterCache = db.filterCache := by
  unfold readEntry
  split
  · rfl
  · split <;> rfl

theorem list_entries (db : Database α) (now : Int) (source : Text) : (readFilterList db now source).1.storageEntry = db.storageEntry := by
  unfold readFilterList
  split
  · rfl
  · split <;> rfl

-- What an adapter makes of the parts in which the two differ.
def Adapter.expiry : Adapter → Int → Option Int → Option Int
  | .d1 _ config => D1StorageAdapter.computeExpiry config
  | .hyperdrive _ _ => HyperdriveStorageAdapter.entryExpiry

def Adapter.entry : Adapter → StorageRow α → StorageEntry α
  | .d1 _ _ => D1StorageAdapter.entry
  | .hyperdrive _ _ => HyperdriveStorageAdapter.entry

def Adapter.wanted : Adapter → QueryOptions → StorageRow α → Bool
  | .d1 prisma _ => D1StorageAdapter.wanted prisma
  | .hyperdrive prisma _ => HyperdriveStorageAdapter.wanted prisma

theorem set_exact (adapter : Adapter) (db : Database α) (now : Int) (key : List Text) (value : α) (ttlMs : Option Int) :
    adapter.set db now key value ttlMs = (storeEntry db now key value (adapter.expiry now ttlMs),true) := by cases adapter <;> rfl

theorem get_exact (adapter : Adapter) (db : Database α) (now : Int) (key : List Text) :
    adapter.get db now key = readEntry adapter.entry db now key := by cases adapter <;> rfl

theorem delete_exact (adapter : Adapter) (db : Database α) (key : List Text) :
    (adapter.delete db key).1 = removeEntry db key := by cases adapter <;> rfl

theorem list_exact (adapter : Adapter) (db : Database α) (now : Int) (options : QueryOptions) :
    adapter.list db now options = queryEntries adapter.entry (adapter.wanted options) db now options := by cases adapter <;> rfl

theorem getCached_exact (adapter : Adapter) (db : Database α) (now : Int) (source : Text) :
    adapter.getCachedFilterList db now source = readFilterList db now source := by cases adapter <;> rfl

theorem entry_data (adapter : Adapter) (row : StorageRow α) : (adapter.entry row).data = row.data := by cases adapter <;> rfl

theorem listed (member : item ∈ queryEntries view wanted db now options) :
    ∃ row ∈ db.storageEntry.rows, unexpired now row.expiresAt = true ∧ wanted row = true ∧ item = (deserializeKey row.key,view row) := by
  obtain ⟨row,selected,rfl⟩ := List.mem_map.mp member
  obtain ⟨present,chosen⟩ := select_mem selected
  obtain ⟨fresh,meant⟩ := Bool.and_eq_true_iff.mp chosen
  exact ⟨row,present,fresh,meant,rfl⟩

theorem serialize_deserialize (text : Text) : serializeKey (deserializeKey text) = text := List.intercalate_splitOn '/'

theorem serialize_three (a b c : Text) : serializeKey [a,b,c] = a ++ '/' :: (b ++ ['/']) ++ c := by
  simp [serializeKey,List.intercalate]

theorem serialize_four (a b c d : Text) : serializeKey [a,b,c,d] = a ++ '/' :: (b ++ ['/']) ++ (c ++ '/' :: d) := by
  simp [serializeKey,List.intercalate]

theorem deserialize_free {text segment : Text} (member : segment ∈ deserializeKey text) : '/' ∉ segment := by
  unfold deserializeKey at member
  induction text generalizing segment with
  | nil =>
    rw [List.splitOn_nil,List.mem_singleton] at member
    rw [member]
    exact List.not_mem_nil
  | cons c rest ih =>
    rw [List.splitOn_cons_eq_if_modifyHead] at member
    cases shape : rest.splitOn '/' with
    | nil => exact absurd shape (List.splitOn_ne_nil '/' rest)
    | cons first others =>
      rw [shape] at member ih
      by_cases slash : (c == '/') = true
      · rw [if_pos slash] at member
        rcases List.mem_cons.mp member with rfl | later
        · exact List.not_mem_nil
        · exact ih later
      · rw [if_neg slash,List.modifyHead_cons] at member
        rcases List.mem_cons.mp member with rfl | later
        · intro inside
          rcases List.mem_cons.mp inside with rfl | deeper
          · exact slash rfl
          · exact ih List.mem_cons_self deeper
        · exact ih (List.mem_cons_of_mem _ later)

def Plain (key : List Text) : Prop := key ≠ [] ∧ ∀ segment ∈ key, '/' ∉ segment

theorem roundtrip_exact : deserializeKey (serializeKey key) = key ↔ Plain key := by
  constructor
  · intro same
    refine ⟨?_,?_⟩
    · intro empty
      exact List.splitOn_ne_nil '/' _ (same.trans empty)
    · intro segment member
      exact deserialize_free (same.symm ▸ member)
  · intro plain
    exact List.splitOn_intercalate '/' plain.2 plain.1

inductive KeyOp (α : Type) where
  | set (key : List Text) (value : α) (ttlMs : Option Int)
  | delete (key : List Text)
  | get (key : List Text)
  | advance (ms : Nat)

structure Store (α : Type) where
  db : Database α
  now : Int

def Adapter.perform (adapter : Adapter) (s : Store α) : KeyOp α → Store α
  | .set key value ttlMs => { s with db := (adapter.set s.db s.now key value ttlMs).1 }
  | .delete key => { s with db := (adapter.delete s.db key).1 }
  | .get key => { s with db := (adapter.get s.db s.now key).1 }
  | .advance ms => { s with now := s.now+ms }

def Adapter.after (adapter : Adapter) (ops : List (KeyOp α)) : Store α := ops.foldl adapter.perform ⟨.empty,0⟩

def KeyOp.keys : KeyOp α → List (List Text)
  | .set key _ _ | .delete key | .get key => [key]
  | .advance _ => []

def KeyOp.setAs (text : Text) : KeyOp α → Option (List Text)
  | .set key _ _ => if serializeKey key = text then some key else none
  | .delete _ | .get _ | .advance _ => none

-- The key array of the latest set that wrote to a joined key.
def setUnder (ops : List (KeyOp α)) (text : Text) : Option (List Text) := ops.reverse.findSome? (KeyOp.setAs text)

-- Keys in use do not interfere, and a listing gives back the ones that were set.
structure Separate (adapter : Adapter) (α : Type) (used : Set (List Text)) : Prop where
  undisturbed : ∀ one ∈ used, ∀ two ∈ used, one ≠ two → ∀ (db : Database α) (now later : Int) (value : α) (ttlMs : Option Int),
    (adapter.get (adapter.set db now one value ttlMs).1 later two).2 = (adapter.get db later two).2 ∧
      (adapter.get (adapter.delete db one).1 later two).2 = (adapter.get db later two).2
  named : ∀ ops : List (KeyOp α), (∀ op ∈ ops, ∀ key ∈ op.keys, key ∈ used) → ∀ options,
    ∀ item ∈ adapter.list (adapter.after ops).db (adapter.after ops).now options,
      setUnder ops (serializeKey item.1) = some item.1

theorem undisturbed_apart (adapter : Adapter) (apart : serializeKey one ≠ serializeKey two) (db : Database α) (now later : Int)
    (value : α) (ttlMs : Option Int) :
    (adapter.get (adapter.set db now one value ttlMs).1 later two).2 = (adapter.get db later two).2 ∧
      (adapter.get (adapter.delete db one).1 later two).2 = (adapter.get db later two).2 := by
  have other : serializeKey two ≠ serializeKey one := apart.symm
  constructor
  · rw [get_exact,get_exact,set_exact,read_value,read_value,find_store,if_neg other]
  · rw [get_exact,get_exact,delete_exact,read_value,read_value,find_remove,if_neg other]

-- Every row was written by a set under a key that joins to the row's.
def Written (used : Set (List Text)) (ops : List (KeyOp α)) (db : Database α) : Prop :=
  ∀ text row, db.storageEntry.find text = some row → ∃ key ∈ used, setUnder ops text = some key ∧ serializeKey key = text

theorem setUnder_append (ops : List (KeyOp α)) (op : KeyOp α) (text : Text) :
    setUnder (ops ++ [op]) text = (op.setAs text).or (setUnder ops text) := by
  rw [setUnder,List.reverse_append,List.reverse_singleton,List.singleton_append,List.findSome?_cons]
  cases op.setAs text <;> rfl

theorem written_kept {db next : Database α} (written : Written used ops db) (silent : ∀ text, op.setAs text = none)
    (fewer : ∀ text row, next.storageEntry.find text = some row → ∃ old, db.storageEntry.find text = some old) :
    Written used (ops ++ [op]) next := by
  intro text row found
  obtain ⟨old,before⟩ := fewer text row found
  obtain ⟨key,inUse,under,named⟩ := written text old before
  refine ⟨key,inUse,?_,named⟩
  rw [setUnder_append,silent,Option.none_or]
  exact under

theorem written_step (adapter : Adapter) {s : Store α} (written : Written used ops s.db) (inUse : ∀ key ∈ op.keys, key ∈ used) :
    Written used (ops ++ [op]) (adapter.perform s op).db := by
  cases op with
  | set key value ttlMs =>
    intro text row found
    rw [Adapter.perform,set_exact] at found
    simp only [find_store] at found
    rw [setUnder_append,KeyOp.setAs]
    by_cases mine : text = serializeKey key
    · subst mine
      rw [if_pos rfl]
      exact ⟨key,inUse key (List.mem_singleton_self key),rfl,rfl⟩
    · rw [if_neg mine] at found
      rw [if_neg (Ne.symm mine),Option.none_or]
      exact written text row found
  | delete key =>
    refine written_kept written (fun _ => rfl) ?_
    intro text row found
    rw [Adapter.perform,delete_exact] at found
    simp only [find_remove] at found
    split at found
    · cases found
    · exact ⟨row,found⟩
  | get key =>
    refine written_kept written (fun _ => rfl) ?_
    intro text row found
    rw [Adapter.perform,get_exact] at found
    simp only [find_read] at found
    split at found
    · exact ⟨row,(Option.filter_eq_some_iff.mp found).1⟩
    · exact ⟨row,found⟩
  | advance ms => exact written_kept written (fun _ => rfl) fun _ row found => ⟨row,found⟩

theorem written_after (adapter : Adapter) (ops : List (KeyOp α)) (inUse : ∀ op ∈ ops, ∀ key ∈ op.keys, key ∈ used) :
    Written used ops (adapter.after ops).db := by
  induction ops using List.reverseRecOn with
  | nil => exact nofun
  | append_singleton ops op ih =>
    obtain ⟨earlier,last⟩ := List.forall_mem_append.mp inUse
    rw [Adapter.after,List.foldl_append]
    exact written_step adapter (ih earlier) (last op (List.mem_singleton_self op))

theorem separate_plain (adapter : Adapter) (plain : ∀ key ∈ used, Plain key) : Separate adapter α used := by
  have back : ∀ key ∈ used, deserializeKey (serializeKey key) = key := fun key member => roundtrip_exact.mpr (plain key member)
  constructor
  · intro one first two second differ
    apply undisturbed_apart
    intro same
    exact differ ((back one first).symm.trans ((congrArg deserializeKey same).trans (back two second)))
  · intro ops inUse options item member
    rw [list_exact] at member
    obtain ⟨row,present,-,-,rfl⟩ := listed member
    obtain ⟨key,mine,under,named⟩ := written_after adapter ops inUse row.key row (find_exact.mpr ⟨present,rfl⟩)
    have same : deserializeKey row.key = key := (congrArg deserializeKey named.symm).trans (back key mine)
    rw [serialize_deserialize,under,same]

theorem expiry_positive (adapter : Adapter) (now : Int) (lasting : 0 < ttlMs) : adapter.expiry now (some ttlMs) = some (now+ttlMs) := by
  cases adapter with
  | d1 prisma config =>
    have shown : ¬(ttlMs = 0 ∨ ttlMs ≤ 0) := by omega
    exact if_neg shown
  | hyperdrive prisma config =>
    have shown : ttlMs ≠ 0 := by omega
    simp [Adapter.expiry,HyperdriveStorageAdapter.entryExpiry,Option.filter_some,shown]

def QueryOptions.all : QueryOptions := ⟨none,none,none,none,false⟩

theorem wanted_all (adapter : Adapter) (row : StorageRow α) : adapter.wanted .all row = true := by cases adapter <;> rfl

-- What was just set is listed.
theorem listed_set (adapter : Adapter) (db : Database α) (now : Int) (key : List Text) (value : α) (lasting : 0 < ttlMs) :
    ∃ item ∈ adapter.list (adapter.set db now key value (some ttlMs)).1 now .all, item.1 = deserializeKey (serializeKey key) := by
  obtain ⟨row,found,expires⟩ : ∃ row, (storeEntry db now key value (some (now+ttlMs))).storageEntry.find (serializeKey key) = some row ∧
      row.expiresAt = some (now+ttlMs) := by
    rw [find_store,if_pos rfl]
    refine ⟨_,rfl,?_⟩
    cases db.storageEntry.find (serializeKey key) <;> rfl
  obtain ⟨present,named⟩ := find_exact.mp found
  refine ⟨(deserializeKey row.key,adapter.entry row),?_,congrArg deserializeKey named⟩
  rw [list_exact,set_exact,expiry_positive adapter now lasting]
  refine List.mem_map_of_mem (select_all.mpr ⟨present,?_⟩)
  rw [wanted_all,Bool.and_true,expires]
  exact decide_eq_true (Int.lt_add_of_pos_right now lasting)

theorem read_set (adapter : Adapter) (db : Database α) (now : Int) (key : List Text) (value : α) (lasting : 0 < ttlMs) :
    (adapter.get (adapter.set db now key value (some ttlMs)).1 now key).2.map StorageEntry.data = some value := by
  have fresh : ¬now+ttlMs < now := by omega
  rw [get_exact,set_exact,expiry_positive adapter now lasting,read_value,find_store,if_pos rfl,Option.map_map]
  cases db.storageEntry.find (serializeKey key) <;> simp [Option.filter_some,expired,fresh,entry_data]

theorem keys_exact (adapter : Adapter) [Inhabited α] (used : Set (List Text)) : Separate adapter α used ↔ ∀ key ∈ used, Plain key := by
  refine ⟨?_,separate_plain adapter⟩
  intro separate key member
  obtain ⟨item,present,same⟩ := listed_set adapter .empty 0 key (default : α) Int.one_pos
  have inUse : ∀ op ∈ [KeyOp.set key (default : α) (some 1)], ∀ other ∈ op.keys, other ∈ used := by
    simpa [KeyOp.keys] using member
  have under := separate.named _ inUse .all item present
  rw [same,serialize_deserialize] at under
  have found : setUnder [KeyOp.set key (default : α) (some 1)] (serializeKey key) = some key := by simp [setUnder,KeyOp.setAs]
  exact roundtrip_exact.mp (Option.some.inj (under.symm.trans found))

def D1StorageConfig.default : D1StorageConfig := ⟨3600000⟩
def HyperdriveStorageConfig.default : HyperdriveStorageConfig := ⟨3600000,by decide⟩

section Like

-- LIKE of SQL: an underscore stands for one character, a percent sign for any
-- run of them, and what follows the escape character for itself.
inductive LikePiece where
  | letter (c : Char)
  | one
  | run

structure Dialect where
  escape : Option Char
  same : Char → Char → Bool

def likePiece (c : Char) : LikePiece := if c = '_' then .one else if c = '%' then .run else .letter c

def Dialect.pieces (d : Dialect) : Text → List LikePiece
  | [] => []
  | [c] => [likePiece c]
  | c :: next :: rest => if d.escape = some c then .letter next :: d.pieces rest else likePiece c :: d.pieces (next :: rest)

def Dialect.meets (d : Dialect) : List LikePiece → Text → Bool
  | [],text => text.isEmpty
  | .run :: pieces,text => text.tails.any (d.meets pieces)
  | .one :: pieces,_ :: text => d.meets pieces text
  | .letter e :: pieces,c :: text => d.same e c && d.meets pieces text
  | .one :: _,[] | .letter _ :: _,[] => false

-- Prisma sends the stem as it is, with a percent sign behind it.
def Dialect.client (d : Dialect) : PrismaClient := ⟨fun stem key => d.meets (d.pieces (stem ++ ['%'])) key⟩

-- SQLite compares letters of ASCII without their case and has no escape.
def Dialect.sqlite : Dialect := ⟨none,fun one other => one.toLower == other.toLower⟩
def Dialect.postgres : Dialect := ⟨some '\\',fun one other => one == other⟩

def PrismaClient.sqlite : PrismaClient := Dialect.sqlite.client
def PrismaClient.postgres : PrismaClient := Dialect.postgres.client

theorem pieces_plain (d : Dialect) (plain : ∀ c ∈ text, d.escape ≠ some c) : d.pieces text = text.map likePiece := by
  fun_induction d.pieces text with
  | case1 => rfl
  | case2 c => rfl
  | case3 c next rest escaped ih => exact absurd escaped (plain c List.mem_cons_self)
  | case4 c next rest escaped ih => exact congrArg (likePiece c :: ·) (ih fun e member => plain e (List.mem_cons_of_mem c member))

theorem meets_letters (d : Dialect) (exact_ : ∀ one other, d.same one other = (one == other)) (stem key : Text) :
    d.meets (stem.map .letter ++ [.run]) key = JsText.startsWith key stem := by
  induction stem generalizing key with
  | nil =>
    have ends : ([] : Text) ∈ key.tails := (List.mem_tails _ _).mpr List.nil_suffix
    exact List.any_eq_true.mpr ⟨[],ends,rfl⟩
  | cons e stem ih =>
    cases key with
    | nil => rfl
    | cons c key =>
      rw [List.map_cons,List.cons_append,Dialect.meets,ih,exact_]
      rfl

-- A stem without the three marks is taken literally by PostgreSQL.
theorem postgres_plain (plain : ∀ c ∈ stem, c ≠ '_' ∧ c ≠ '%' ∧ c ≠ '\\') (key : Text) :
    PrismaClient.postgres.startsWith stem key = JsText.startsWith key stem := by
  have free : ∀ c ∈ stem ++ ['%'], Dialect.postgres.escape ≠ some c := by
    intro c member same
    obtain rfl : '\\' = c := Option.some.inj same
    rcases List.mem_append.mp member with inside | last
    · exact (plain _ inside).2.2 rfl
    · exact absurd (List.mem_singleton.mp last) (by decide)
  have letters : stem.map likePiece = stem.map .letter := by
    apply List.map_congr_left
    intro c member
    obtain ⟨one,run,-⟩ := plain c member
    rw [likePiece,if_neg one,if_neg run]
  show Dialect.postgres.meets (Dialect.postgres.pieces (stem ++ ['%'])) key = _
  rw [pieces_plain .postgres free,List.map_append,letters]
  exact meets_letters .postgres (fun _ _ => rfl) stem key

end Like

-- A snapshot of https://x/y is stored, and a list below https://x is read.
def storedUrl : List Text := ["sources".toList,"https://x/y".toList]
def splitUrl : List Text := ["sources".toList,"https:".toList,[],"x".toList,"y".toList]

theorem storedUrl_split : storedUrl ≠ splitUrl ∧ serializeKey storedUrl = serializeKey splitUrl := by decide

theorem keys_interfere : ¬Separate (.d1 .sqlite .default) Text Set.univ ∧ ¬Separate (.hyperdrive .postgres .default) Text Set.univ := by
  have broken (adapter : Adapter) : ¬Separate adapter Text Set.univ := by
    intro separate
    have kept := (separate.undisturbed _ trivial _ trivial storedUrl_split.1 .empty 0 0 "data".toList (some 1)).1
    have read := read_set adapter .empty 0 storedUrl "data".toList Int.one_pos
    rw [get_exact,read_value,storedUrl_split.2,← read_value,← get_exact,kept,get_exact] at read
    cases read
  exact ⟨broken _,broken _⟩

end AdblockCompiler.StorageAdapters

-- What is kept of a source in storage: snapshots of its content and its health.
namespace AdblockCompiler.SourceRecords
open JsText

structure SourceSnapshot where
  source : Text
  timestamp : Int
  hash : Text
  ruleCount : Nat
  ruleSample : List Text
  etag : Option Text
  deriving DecidableEq

inductive HealthStatus where
  | Healthy | Degraded | Unhealthy | Unknown
  deriving DecidableEq, Repr

structure SourceAttempt where
  timestamp : Int
  success : Bool
  duration : Int
  error : Option Text
  ruleCount : Option Nat
  etag : Option Text
  deriving DecidableEq

-- Rates and averages are quotients of integers.
structure SourceHealthMetrics where
  source : Text
  status : HealthStatus
  totalAttempts : Nat
  successfulAttempts : Nat
  failedAttempts : Nat
  successRate : Rat
  averageDuration : Rat
  lastAttempt : Option Int
  lastSuccess : Option Int
  lastFailure : Option Int
  recentAttempts : List SourceAttempt
  averageRuleCount : Option Rat
  isCurrentlyFailing : Bool
  consecutiveFailures : Nat
  deriving DecidableEq

-- The two kinds of value that storage holds side by side.
inductive SourceRecord where
  | snapshot (snapshot : SourceSnapshot)
  | metrics (metrics : SourceHealthMetrics)
  deriving DecidableEq

def SourceRecord.source : SourceRecord → Text
  | .snapshot content => content.source
  | .metrics health => health.source

def SourceRecord.asSnapshot : SourceRecord → Option SourceSnapshot
  | .snapshot content => some content
  | .metrics _ => none

def SourceRecord.asMetrics : SourceRecord → Option SourceHealthMetrics
  | .metrics health => some health
  | .snapshot _ => none

end AdblockCompiler.SourceRecords
