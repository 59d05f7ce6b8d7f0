import AdblockCompiler.JsText
import AdblockCompiler.KeyedRows

-- The migration of two tables from D1 to PostgreSQL.
namespace AdblockCompiler.Migration
open JsText KeyedRows

structure StorageEntry where
  key : Text
  data : Text
  createdAt : Text
  updatedAt : Text
  expiresAt : Option Text
  tags : Option Text
  deriving DecidableEq, Repr

structure FilterCacheEntry where
  source : Text
  content : Text
  hash : Text
  etag : Option Text
  createdAt : Text
  updatedAt : Text
  expiresAt : Option Text
  deriving DecidableEq, Repr

structure MigrationStats where
  table : Text
  sourceCount : Nat := 0
  migratedCount : Nat := 0
  skippedCount : Nat := 0
  errorCount : Nat := 0
  deriving DecidableEq, Repr

def BATCH_SIZE : Nat := 100

-- An INSERT of one row with ON CONFLICT on its key: the key and the values it
-- binds.
structure Insertion (Row : Type) where
  table : Text
  key : Row → Text
  values : Row → Row
  keyed : ∀ row, key (values row) = key row

-- What becomes of a query: it is answered, or it throws, after the statement
-- has been carried out or without that.
inductive Attempt where
  | answered
  | thrown (carriedOut : Bool)
  deriving DecidableEq, Repr

section Migrating
variable {Row : Type} (insertion : Insertion Row)

structure State where
  pool : Table insertion.key
  stats : MigrationStats

variable {insertion}

-- result.rowCount
def rowCount (pool : Table insertion.key) (row : Row) : Nat := if pool.find (insertion.key (insertion.values row)) = none then 1 else 0

def insertRow (attempt : Attempt) (row : Row) (s : State insertion) : State insertion :=
  match attempt with
  | .answered =>
    let pool := s.pool.insertNew (insertion.values row)
    if 0 < rowCount s.pool row then ⟨pool,{ s.stats with migratedCount := s.stats.migratedCount+1 }⟩
    else ⟨pool,{ s.stats with skippedCount := s.stats.skippedCount+1 }⟩
  | .thrown carriedOut =>
    ⟨if carriedOut then s.pool.insertNew (insertion.values row) else s.pool,{ s.stats with errorCount := s.stats.errorCount+1 }⟩

-- attempts tells what becomes of the query for each row, by its place.
def insertRows (attempts : Nat → Attempt) (place : Nat) : List Row → State insertion → State insertion
  | [],s => s
  | row :: rest,s => insertRows attempts (place+1) rest (insertRow (attempts place) row s)

-- SELECT .. LIMIT limit OFFSET offset
def page (rows : List Row) (limit offset : Nat) : List Row := (rows.drop offset).take limit

def migrateFrom (attempts : Nat → Attempt) (db : List Row) (offset : Nat) (s : State insertion) : State insertion :=
  if offset < s.stats.sourceCount then
    let rows := page db BATCH_SIZE offset
    if rows.length = 0 then s
    else migrateFrom attempts db (offset+rows.length) (insertRows attempts offset rows s)
  else s
termination_by db.length-offset
decreasing_by
  rename_i nonempty
  have size : (page db BATCH_SIZE offset).length = min BATCH_SIZE (db.length-offset) := by simp [page]
  change ¬(page db BATCH_SIZE offset).length = 0 at nonempty
  omega

def migrateTable (attempts : Nat → Attempt) (db : Option (List Row)) (pool : Table insertion.key) : State insertion :=
  match db with
  | none => ⟨pool,{ table := insertion.table }⟩
  | some db =>
    let stats : MigrationStats := { table := insertion.table, sourceCount := db.length }
    if stats.sourceCount = 0 then ⟨pool,stats⟩ else migrateFrom attempts db 0 ⟨pool,stats⟩

end Migrating

def storageEntries : Insertion StorageEntry where
  table := "storage_entries".toList
  key := StorageEntry.key
  values row := {
    key := row.key
    data := row.data
    createdAt := row.createdAt
    updatedAt := row.updatedAt
    expiresAt := row.expiresAt
    tags := row.tags }
  keyed _ := rfl

def filterCache : Insertion FilterCacheEntry where
  table := "filter_cache".toList
  key := FilterCacheEntry.source
  values row := {
    source := row.source
    content := row.content
    hash := row.hash
    etag := row.etag
    createdAt := row.createdAt
    updatedAt := row.updatedAt
    expiresAt := row.expiresAt }
  keyed _ := rfl

def migrateStorageEntries (attempts : Nat → Attempt) (db : Option (List StorageEntry)) (pool : Table StorageEntry.key) : State storageEntries :=
  migrateTable attempts db pool

def migrateFilterCache (attempts : Nat → Attempt) (db : Option (List FilterCacheEntry)) (pool : Table FilterCacheEntry.source) : State filterCache :=
  migrateTable attempts db pool

section Rows
variable {Row : Type} {insertion : Insertion Row}

theorem insertRow_find (attempt : Attempt) (row : Row) (s : State insertion) (k : Text) :
    (insertRow attempt row s).pool.find k =
      (s.pool.find k).or (if k = insertion.key row ∧ attempt ≠ .thrown false then some (insertion.values row) else none) := by
  cases attempt with
  | answered =>
    have pool : (insertRow .answered row s).pool = s.pool.insertNew (insertion.values row) := by
      unfold insertRow
      dsimp only
      split
      · rfl
      · rfl
    simp [pool,find_insertNew,insertion.keyed]
  | thrown carriedOut =>
    cases carriedOut with
    | true => simp [insertRow,find_insertNew,insertion.keyed]
    | false => simp [insertRow]

-- The row that is written under a key, where the table has none: the first one
-- whose statement is carried out.
def carried (insertion : Insertion Row) (attempts : Nat → Attempt) (place : Nat) (rows : List Row) (k : Text) : Option Row :=
  ((rows.zipIdx place).find? fun row => k = insertion.key row.1 ∧ attempts row.2 ≠ .thrown false).map fun row => insertion.values row.1

theorem insertRows_find (attempts : Nat → Attempt) (place : Nat) (rows : List Row) (s : State insertion) (k : Text) :
    (insertRows attempts place rows s).pool.find k = (s.pool.find k).or (carried insertion attempts place rows k) := by
  induction rows generalizing place s with
  | nil => simp [insertRows,carried]
  | cons row rest ih =>
    rw [insertRows,ih,insertRow_find,Option.or_assoc]
    congr 1
    unfold carried
    rw [List.zipIdx_cons,List.find?_cons]
    by_cases own : k = insertion.key row ∧ attempts place ≠ .thrown false
    · simp [own]
    · simp [own]

def failing (attempts : Nat → Attempt) (place : Nat) : Bool := attempts place ≠ .answered

-- What a row adds to the counts.
structure Counts (before after : MigrationStats) (rows errors : Nat) : Prop where
  table : after.table = before.table
  sourceCount : after.sourceCount = before.sourceCount
  total : after.migratedCount + after.skippedCount + after.errorCount = before.migratedCount + before.skippedCount + before.errorCount + rows
  errorCount : after.errorCount = before.errorCount + errors

theorem insertRow_counts (attempts : Nat → Attempt) (place : Nat) (row : Row) (s : State insertion) :
    Counts s.stats (insertRow (attempts place) row s).stats 1 (if failing attempts place then 1 else 0) := by
  unfold failing insertRow
  cases attempts place with
  | answered =>
    dsimp only
    split
    · exact ⟨rfl,rfl,by dsimp only; omega,rfl⟩
    · exact ⟨rfl,rfl,by dsimp only; omega,rfl⟩
  | thrown carriedOut => exact ⟨rfl,rfl,by dsimp only; omega,rfl⟩

theorem insertRows_counts (attempts : Nat → Attempt) (place : Nat) (rows : List Row) (s : State insertion) :
    Counts s.stats (insertRows attempts place rows s).stats rows.length ((List.range' place rows.length).countP (failing attempts)) := by
  induction rows generalizing place s with
  | nil => exact ⟨rfl,rfl,rfl,rfl⟩
  | cons row rest ih =>
    have first := insertRow_counts attempts place row s
    have later := ih (place+1) (insertRow (attempts place) row s)
    refine ⟨later.table.trans first.table,later.sourceCount.trans first.sourceCount,?_,?_⟩
    · rw [insertRows,later.total,first.total,List.length_cons]
      omega
    · rw [insertRows,later.errorCount,first.errorCount,List.length_cons,List.range'_succ,List.countP_cons]
      omega

theorem insertRows_append (attempts : Nat → Attempt) (place : Nat) (front back : List Row) (s : State insertion) :
    insertRows attempts place (front ++ back) s = insertRows attempts (place+front.length) back (insertRows attempts place front s) := by
  induction front generalizing place s with
  | nil => rfl
  | cons row rest ih =>
    rw [List.cons_append,insertRows,insertRows,ih,List.length_cons]
    congr 1
    omega

-- The batches come to one pass over the rows.
theorem migrateFrom_rows (attempts : Nat → Attempt) (db : List Row) (offset : Nat) (s : State insertion) (whole : s.stats.sourceCount = db.length) :
    migrateFrom attempts db offset s = insertRows attempts offset (db.drop offset) s := by
  fun_induction migrateFrom attempts db offset s with
  | case1 offset s inside rows none_ =>
    have size : (page db BATCH_SIZE offset).length = min BATCH_SIZE (db.length-offset) := by simp [page]
    change (page db BATCH_SIZE offset).length = 0 at none_
    have some_ : 0 < BATCH_SIZE := by decide
    omega
  | case2 offset s inside rows some_ ih =>
    have kept := (insertRows_counts attempts offset rows s).sourceCount
    have split : db.drop offset = rows ++ db.drop (offset+rows.length) := by
      have front : rows = (db.drop offset).take rows.length := by simp [rows,page]
      calc db.drop offset = (db.drop offset).take rows.length ++ (db.drop offset).drop rows.length := (List.take_append_drop _ _).symm
        _ = rows ++ db.drop (offset+rows.length) := by rw [← front,List.drop_drop]
    rw [ih (kept.trans whole),split,insertRows_append]
  | case3 offset s outside =>
    rw [List.drop_of_length_le (by omega)]
    rfl

theorem migrateTable_rows (attempts : Nat → Attempt) (db : List Row) (pool : Table insertion.key) :
    migrateTable attempts (some db) pool =
      insertRows attempts 0 db ⟨pool,{ table := insertion.table, sourceCount := db.length }⟩ := by
  unfold migrateTable
  dsimp only
  split
  · next none_ =>
    rw [List.length_eq_zero_iff.mp none_]
    rfl
  · exact migrateFrom_rows attempts db 0 _ rfl

-- Under the key of a row whose statement is carried out there is that row, where
-- there was none before.
theorem carried_own (attempts : Nat → Attempt) {db : List Row} (unique : (db.map insertion.key).Nodup) {n : Nat} (inside : n < db.length)
    (made : attempts n ≠ .thrown false) : carried insertion attempts 0 db (insertion.key db[n]) = some (insertion.values db[n]) := by
  unfold carried
  have member : (db[n],n) ∈ db.zipIdx 0 := by simp [List.mem_zipIdx_iff_getElem?,inside]
  cases found : (db.zipIdx 0).find? fun row => insertion.key db[n] = insertion.key row.1 ∧ attempts row.2 ≠ .thrown false with
  | none =>
    have none_ := List.find?_eq_none.mp found (db[n],n) member
    simp [made] at none_
  | some row =>
    have own := List.find?_some found
    simp only [decide_eq_true_eq] at own
    have other : row.1 ∈ db := List.fst_mem_of_mem_zipIdx (List.mem_of_find?_eq_some found)
    have same : row.1 = db[n] := List.inj_on_of_nodup_map unique other (List.getElem_mem inside) own.1.symm
    rw [Option.map_some,same]

theorem carried_mem (attempts : Nat → Attempt) (place : Nat) (rows : List Row) (found : carried insertion attempts place rows k = some row) :
    ∃ source ∈ rows, insertion.key source = k ∧ insertion.values source = row := by
  obtain ⟨pair,own,rfl⟩ := Option.map_eq_some_iff.mp found
  have holds := List.find?_some own
  simp only [decide_eq_true_eq] at holds
  exact ⟨pair.1,List.fst_mem_of_mem_zipIdx (List.mem_of_find?_eq_some own),holds.1.symm,rfl⟩

end Rows

-- What a migration of the rows leaves, and what a second one without failures
-- does.
structure Migrated {Row : Type} (insertion : Insertion Row) (db : List Row) (attempts : Nat → Attempt) (pool : Table insertion.key)
    (migrate : (Nat → Attempt) → Table insertion.key → State insertion) : Prop where
  present : ∀ n, ∀ inside : n < db.length, attempts n = .answered →
    (migrate attempts pool).pool.find (insertion.key db[n]) = some ((pool.find (insertion.key db[n])).getD (insertion.values db[n]))
  errors : (migrate attempts pool).stats.errorCount = (List.range db.length).countP (failing attempts)
  unchanged : ∀ row ∈ pool.rows, row ∈ (migrate attempts pool).pool.rows
  written : ∀ row ∈ (migrate attempts pool).pool.rows, row ∈ pool.rows ∨ ∃ source ∈ db, insertion.values source = row
  sourceCount : (migrate attempts pool).stats.sourceCount = db.length
  total : (migrate attempts pool).stats.sourceCount = (migrate attempts pool).stats.migratedCount +
    (migrate attempts pool).stats.skippedCount + (migrate attempts pool).stats.errorCount
  again : ∀ later, (∀ n, later n = .answered) → ∀ row ∈ db,
    (migrate later (migrate attempts pool).pool).pool.find (insertion.key row) ≠ none

section Migrations
variable {Row : Type} {insertion : Insertion Row}

theorem migrate_find (attempts : Nat → Attempt) (db : List Row) (pool : Table insertion.key) (k : Text) :
    (migrateTable attempts (some db) pool).pool.find k = (pool.find k).or (carried insertion attempts 0 db k) := by
  rw [migrateTable_rows,insertRows_find]

theorem migrate_present (attempts : Nat → Attempt) {db : List Row} (unique : (db.map insertion.key).Nodup) (pool : Table insertion.key)
    {n : Nat} (inside : n < db.length) (made : attempts n ≠ .thrown false) :
    (migrateTable attempts (some db) pool).pool.find (insertion.key db[n]) =
      some ((pool.find (insertion.key db[n])).getD (insertion.values db[n])) := by
  rw [migrate_find,carried_own attempts unique inside made]
  cases pool.find (insertion.key db[n]) <;> rfl

theorem migrate_counts (attempts : Nat → Attempt) (db : List Row) (pool : Table insertion.key) :
    Counts { table := insertion.table, sourceCount := db.length } (migrateTable attempts (some db) pool).stats db.length
      ((List.range' 0 db.length).countP (failing attempts)) := by
  rw [migrateTable_rows]
  exact insertRows_counts attempts 0 db ⟨pool,{ table := insertion.table, sourceCount := db.length }⟩

theorem migrate_migrated (attempts : Nat → Attempt) {db : List Row} (unique : (db.map insertion.key).Nodup) (pool : Table insertion.key) :
    Migrated insertion db attempts pool fun attempts pool => migrateTable attempts (some db) pool := by
  have counts := migrate_counts attempts db pool
  refine ⟨?_,?_,?_,?_,counts.sourceCount,?_,?_⟩
  · intro n inside answered
    refine migrate_present attempts unique pool inside ?_
    rw [answered]
    simp
  · rw [counts.errorCount,List.range_eq_range']
    exact Nat.zero_add _
  · intro row member
    have held : pool.find (insertion.key row) = some row := find_exact.mpr ⟨member,rfl⟩
    have after := migrate_find attempts db pool (insertion.key row)
    rw [held,Option.some_or] at after
    exact (find_exact.mp after).1
  · intro row member
    have found : (migrateTable attempts (some db) pool).pool.find (insertion.key row) = some row := find_exact.mpr ⟨member,rfl⟩
    rw [migrate_find] at found
    obtain held | ⟨-,new⟩ := Option.or_eq_some_iff.mp found
    · exact .inl (find_exact.mp held).1
    · obtain ⟨source,inside,-,same⟩ := carried_mem attempts 0 db new
      exact .inr ⟨source,inside,same⟩
  · have total := counts.total
    have sourceCount := counts.sourceCount
    dsimp only at total sourceCount
    omega
  · intro later answered row member
    obtain ⟨n,inside,rfl⟩ := List.getElem_of_mem member
    rw [migrate_present later unique _ inside (by rw [answered]; simp)]
    exact Option.some_ne_none _

-- For both tables, whatever they hold and whichever queries throw.
theorem migration_exact :
    (∀ (db : List StorageEntry) (attempts : Nat → Attempt) (pool : Table StorageEntry.key), (db.map StorageEntry.key).Nodup →
      Migrated storageEntries db attempts pool fun attempts pool => migrateStorageEntries attempts (some db) pool) ∧
    ∀ (db : List FilterCacheEntry) (attempts : Nat → Attempt) (pool : Table FilterCacheEntry.source), (db.map FilterCacheEntry.source).Nodup →
      Migrated filterCache db attempts pool fun attempts pool => migrateFilterCache attempts (some db) pool := by
  constructor
  · intro db attempts pool unique
    exact @migrate_migrated _ storageEntries attempts db unique pool
  · intro db attempts pool unique
    exact @migrate_migrated _ filterCache attempts db unique pool

def entry (key data : Text) : StorageEntry where
  key := key
  data := data
  createdAt := []
  updatedAt := []
  expiresAt := none
  tags := none

def cached (source content : Text) : FilterCacheEntry where
  source := source
  content := content
  hash := []
  etag := none
  createdAt := []
  updatedAt := []
  expiresAt := none

-- One row is there already, one query throws.
theorem thrown_migrated :
    Migrated storageEntries [entry ['a'] ['1'],entry ['b'] ['2'],entry ['c'] ['3']] (fun n => if n = 1 then .thrown false else .answered)
      ⟨[entry ['a'] ['0']],by decide⟩ (fun attempts pool => migrateStorageEntries attempts
        (some [entry ['a'] ['1'],entry ['b'] ['2'],entry ['c'] ['3']]) pool) ∧
    Migrated filterCache [cached ['u'] ['1'],cached ['v'] ['2']] (fun n => if n = 0 then .thrown true else .answered) ⟨[],by decide⟩
      (fun attempts pool => migrateFilterCache attempts (some [cached ['u'] ['1'],cached ['v'] ['2']]) pool) :=
  ⟨migration_exact.1 _ _ _ (by decide),migration_exact.2 _ _ _ (by decide)⟩

end Migrations

end AdblockCompiler.Migration
