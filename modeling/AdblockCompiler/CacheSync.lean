import AdblockCompiler.JsText
import AdblockCompiler.KeyedRows

-- syncBatch: records written to the D1 cache in one transaction, and one by one
-- where that fails.
namespace AdblockCompiler.CacheSync
open JsText KeyedRows

inductive SyncTable where
  | storageEntry | filterCache | compilationMetadata | sourceSnapshot | sourceHealth | sourceAttempt | user
  deriving DecidableEq, Repr

def SyncTable.name : SyncTable → Text
  | .storageEntry => "storageEntry".toList
  | .filterCache => "filterCache".toList
  | .compilationMetadata => "compilationMetadata".toList
  | .sourceSnapshot => "sourceSnapshot".toList
  | .sourceHealth => "sourceHealth".toList
  | .sourceAttempt => "sourceAttempt".toList
  | .user => "user".toList

structure CacheSyncResult where
  success : Bool
  table : SyncTable
  id : Text
  error : Option Text
  deriving DecidableEq, Repr

structure BatchSyncResult where
  success : Bool
  table : SyncTable
  total : Nat
  synced : Nat
  failed : Nat
  errors : List Text
  deriving DecidableEq, Repr

-- A payload: its field id, where it has one, and its other fields.
structure Data (Value : Type) where
  id : Option Text
  fields : Text → Option Value

structure Row (Value : Type) where
  id : Text
  fields : Text → Option Value

structure Record (Value : Type) where
  id : Text
  data : Data Value

-- What becomes of a call of upsert: the message of what it throws, and what the
-- engine puts by itself into columns that the payload leaves out. taken is what
-- it throws where the new id of a row is in use.
structure Call (Value : Type) where
  thrown : Option Text
  taken : Text
  touched : Text → Option Value

section Syncing
variable {Value : Type}

abbrev Rows (Value : Type) := Table (Row.id : Row Value → Text)

def Call.written (call : Call Value) (payload : Data Value) (old : Text → Option Value) (column : Text) : Option Value :=
  ((payload.fields column).or (call.touched column)).or (old column)

-- delegate.upsert, where the row of an update goes by the id of its payload.
def upsert (call : Call Value) (id : Text) (update create : Data Value) (rows : Rows Value) : Except Text (Rows Value) :=
  match call.thrown with
  | some message => .error message
  | none =>
    match rows.find id with
    | none => .ok (rows.upsert ⟨create.id.getD id,call.written create fun _ => none⟩)
    | some row =>
      let next := update.id.getD id
      if next ≠ id ∧ rows.find next ≠ none then .error call.taken
      else .ok ((rows.delete id fun _ => true).upsert ⟨next,call.written update row.fields⟩)

def unknownTable (table : SyncTable) : Text :=
  "Unknown table \"".toList ++ table.name ++ "\" on D1 Prisma client".toList

-- delegate tells whether the client has the table.
def syncRecord (table : SyncTable) (id : Text) (data : Data Value) (delegate : Bool) (call : Call Value) (rows : Rows Value) :
    Rows Value × CacheSyncResult :=
  let upserted := if !delegate then .error (unknownTable table) else upsert call id data { data with id := some id } rows
  match upserted with
  | .ok rows => (rows,⟨true,table,id,none⟩)
  | .error message => (rows,⟨false,table,id,some message⟩)

-- What becomes of the transaction: it may throw before its callback, in a call
-- of upsert, by its place, and where it commits.
structure Transaction (Value : Type) where
  begins : Option Text
  delegate : Bool
  calls : Nat → Call Value
  commits : Option Text

-- The loop of the callback, with synced.
def upsertAll (calls : Nat → Call Value) (place : Nat) : List (Record Value) → Rows Value × Nat → Except Text (Rows Value × Nat)
  | [],s => .ok s
  | record :: rest,s => do
    let rows ← upsert (calls place) record.id record.data { record.data with id := some record.id } s.1
    upsertAll calls (place+1) rest (rows,s.2+1)

-- Nothing of a transaction that throws is left.
def transact (table : SyncTable) (records : List (Record Value)) (transaction : Transaction Value) (rows : Rows Value) :
    Except Text (Rows Value × Nat) := do
  if let some message := transaction.begins then throw message
  if !transaction.delegate then throw (unknownTable table)
  let s ← upsertAll transaction.calls 0 records (rows,0)
  if let some message := transaction.commits then throw message
  return s

structure Progress (Value : Type) where
  rows : Rows Value
  synced : Nat
  errors : List Text

def syncEach (table : SyncTable) (delegate : Bool) (calls : Nat → Call Value) (place : Nat) : List (Record Value) → Progress Value → Progress Value
  | [],s => s
  | record :: rest,s =>
    let (rows,result) := syncRecord table record.id record.data delegate (calls place) s.rows
    syncEach table delegate calls (place+1) rest <|
      if result.success then ⟨rows,s.synced+1,s.errors⟩
      else ⟨rows,s.synced,s.errors ++ [result.error.getD ("Unknown error for ".toList ++ record.id)]⟩

-- alone is what becomes of the calls behind the transaction.
def syncBatch (table : SyncTable) (records : List (Record Value)) (transaction : Transaction Value) (delegate : Bool) (alone : Nat → Call Value)
    (rows : Rows Value) : Rows Value × BatchSyncResult :=
  if records.length = 0 then (rows,⟨true,table,0,0,0,[]⟩)
  else
    match transact table records transaction rows with
    | .ok (rows,synced) => (rows,⟨true,table,records.length,synced,0,[]⟩)
    | .error _ =>
      let after := syncEach table delegate alone 0 records ⟨rows,0,[]⟩
      let failed := records.length-after.synced
      (after.rows,⟨failed = 0,table,records.length,after.synced,failed,after.errors⟩)

end Syncing

-- What is claimed of a batch: the ids that others have are left alone, the last
-- record of an id is what its row holds, and the counts are right.
structure Reports {Value : Type} (table : SyncTable) (records : List (Record Value)) (transaction : Transaction Value) (delegate : Bool)
    (alone : Nat → Call Value) (rows after : Rows Value) (result : BatchSyncResult) : Prop where
  elsewhere : ∀ k, k ∉ records.map Record.id → after.find k = rows.find k
  last : ∀ front record back, records = front ++ record :: back → record.id ∉ back.map Record.id →
    (transact table records transaction rows).isOk = true ∨ (delegate = true ∧ (alone front.length).thrown = none) →
    ∃ row, after.find record.id = some row ∧ ∀ column value, record.data.fields column = some value → row.fields column = some value
  total : result.synced + result.failed = result.total ∧ result.total = records.length
  success : result.success = true ↔ result.failed = 0
  errors : result.errors.length = result.failed

def Foreign {Value : Type} (record : Record Value) (other : Text) : Prop := record.data.id = some other ∧ other ≠ record.id

-- Another id in the data of a record is that of some record of the batch, and a
-- later record has the record's own.
def Harmless {Value : Type} (records : List (Record Value)) : Prop :=
  ∀ front record back, records = front ++ record :: back → ∀ other, Foreign record other →
    other ∈ records.map Record.id ∧ record.id ∈ back.map Record.id

section Upserts
variable {Value : Type}

def upsertOf (call : Call Value) (record : Record Value) (rows : Rows Value) : Except Text (Rows Value) :=
  upsert call record.id record.data { record.data with id := some record.id } rows

def Holds (record : Record Value) (row : Row Value) : Prop :=
  ∀ column value, record.data.fields column = some value → row.fields column = some value

-- What one upsert leaves of the table.
inductive Turn (call : Call Value) (record : Record Value) (rows : Rows Value) : Except Text (Rows Value) → Prop where
  | thrown (threw : call.thrown ≠ none) : Turn call record rows (.error message)
  | taken (foreign : Foreign record other) (there : rows.find record.id ≠ none) (used : rows.find other ≠ none) :
      Turn call record rows (.error message)
  | written (row : Row Value) (holds : Holds record row)
      (found : ∀ k, after.find k = if k = record.id then some row else rows.find k) : Turn call record rows (.ok after)
  | moved (row : Row Value) (foreign : Foreign record other) (there : rows.find record.id ≠ none) (free : rows.find other = none)
      (found : ∀ k, after.find k = if k = other then some row else if k = record.id then none else rows.find k) :
      Turn call record rows (.ok after)

theorem written_holds (call : Call Value) (record : Record Value) (id : Text) (old : Text → Option Value) (next : Option Text) :
    Holds record ⟨id,call.written { record.data with id := next } old⟩ := by
  intro column value given
  simp [Call.written,given]

theorem find_replaced (rows : Rows Value) (id : Text) (row : Row Value) (k : Text) :
    ((rows.delete id fun _ => true).upsert row).find k = if k = row.id then some row else if k = id then none else rows.find k := by
  rw [find_upsert,find_delete]
  by_cases gone : k = id
  · rw [if_pos gone,if_pos gone]
    cases rows.find id <;> rfl
  · rw [if_neg gone,if_neg gone]

theorem upsert_turn (call : Call Value) (record : Record Value) (rows : Rows Value) : Turn call record rows (upsertOf call record rows) := by
  unfold upsertOf upsert
  cases threw : call.thrown with
  | some message => exact .thrown (by simp [threw])
  | none =>
    dsimp only
    cases held : rows.find record.id with
    | none =>
      refine .written ⟨record.id,_⟩ (written_holds call record record.id (fun _ => none) (some record.id)) ?_
      intro k
      rw [find_upsert]
      rfl
    | some old =>
      have there : rows.find record.id ≠ none := by simp [held]
      dsimp only
      by_cases own : record.data.id.getD record.id = record.id
      · rw [if_neg (fun both => both.1 own)]
        refine .written ⟨record.id,_⟩ (written_holds call record record.id old.fields record.data.id) ?_
        intro k
        rw [find_replaced]
        dsimp only
        rw [own]
        by_cases same : k = record.id
        · simp only [same,if_true]
        · simp only [same,if_false]
      · obtain ⟨other,given⟩ : ∃ other, record.data.id = some other := by
          cases given : record.data.id with
          | none => exact absurd (by simp [given]) own
          | some other => exact ⟨other,rfl⟩
        have next : record.data.id.getD record.id = other := by simp [given]
        rw [next] at own ⊢
        by_cases used : rows.find other = none
        · rw [if_neg (fun both => both.2 used)]
          exact .moved ⟨other,_⟩ ⟨given,own⟩ there used fun k => find_replaced rows record.id _ k
        · rw [if_pos ⟨own,used⟩]
          exact .taken ⟨given,own⟩ there used

end Upserts

section Passes
variable {Value : Type}

def settled (rows : Rows Value) : Except Text (Rows Value) → Rows Value
  | .ok after => after
  | .error _ => rows

-- The upserts one after the other, where one that throws changes nothing.
def pass (calls : Nat → Call Value) (place : Nat) : List (Record Value) → Rows Value → Rows Value
  | [],rows => rows
  | record :: rest,rows => pass calls (place+1) rest (settled rows (upsertOf (calls place) record rows))

-- A row that is updated under another id goes to an id of the batch, and its
-- own comes again.
def Tame (ids : List Text) (calls : Nat → Call Value) (place : Nat) : List (Record Value) → Rows Value → Prop
  | [],_ => True
  | record :: rest,rows =>
    (∀ other, Foreign record other → rows.find record.id ≠ none → (calls place).thrown = none →
      other ∈ ids ∧ record.id ∈ rest.map Record.id) ∧
    Tame ids calls (place+1) rest (settled rows (upsertOf (calls place) record rows))

variable {calls : Nat → Call Value} {rows : Rows Value}

theorem pass_append (calls : Nat → Call Value) (place : Nat) (front back : List (Record Value)) (rows : Rows Value) :
    pass calls place (front ++ back) rows = pass calls (place+front.length) back (pass calls place front rows) := by
  induction front generalizing place rows with
  | nil => rfl
  | cons record rest ih =>
    rw [List.cons_append,pass,pass,ih,List.length_cons]
    congr 1
    omega

theorem tame_append {front back : List (Record Value)} (tame : Tame ids calls place (front ++ back) rows) :
    Tame ids calls (place+front.length) back (pass calls place front rows) := by
  induction front generalizing place rows with
  | nil => exact tame
  | cons record rest ih =>
    have later := ih tame.2
    rw [List.length_cons,show place+(rest.length+1) = place+1+rest.length by omega]
    exact later

theorem upsert_thrown (threw : (calls place).thrown ≠ none) (record : Record Value) (rows : Rows Value) :
    settled rows (upsertOf (calls place) record rows) = rows := by
  obtain ⟨message,own⟩ := Option.ne_none_iff_exists'.mp threw
  simp [upsertOf,upsert,own,settled]

-- A row outside the ids is left alone.
theorem pass_elsewhere {records : List (Record Value)} (tame : Tame ids calls place records rows)
    (listed : ∀ record ∈ records, record.id ∈ ids) (other : k ∉ ids) : (pass calls place records rows).find k = rows.find k := by
  induction records generalizing place rows with
  | nil => rfl
  | cons record rest ih =>
    obtain ⟨own,others⟩ := List.forall_mem_cons.mp listed
    have apart : k ≠ record.id := fun same => other (same ▸ own)
    rw [pass,ih tame.2 others]
    by_cases threw : (calls place).thrown = none
    · have first := tame.1
      have turn := upsert_turn (calls place) record rows
      generalize upsertOf (calls place) record rows = after at turn
      cases turn with
      | thrown => rfl
      | taken => rfl
      | written row holds found => exact (found k).trans (if_neg apart)
      | moved row foreign there free found =>
        have inside := (first _ foreign there threw).1
        have away : k ≠ _ := fun same => other (same ▸ inside)
        exact (found k).trans ((if_neg away).trans (if_neg apart))
    · rw [upsert_thrown threw]

-- Nothing is moved onto a row that is there.
theorem pass_keeps {records : List (Record Value)} (held : rows.find k = some row) (other : k ∉ records.map Record.id) :
    (pass calls place records rows).find k = some row := by
  induction records generalizing place rows with
  | nil => exact held
  | cons record rest ih =>
    rw [List.map_cons,List.mem_cons,not_or] at other
    refine ih ?_ other.2
    have turn := upsert_turn (calls place) record rows
    generalize upsertOf (calls place) record rows = after at turn
    cases turn with
    | thrown => exact held
    | taken => exact held
    | written row holds found => exact (found k).trans ((if_neg other.1).trans held)
    | @moved target after row foreign there free found =>
      have away : k ≠ target := by
        intro same
        rw [← same,held] at free
        cases free
      exact (found k).trans ((if_neg away).trans ((if_neg other.1).trans held))

theorem pass_last {front back : List (Record Value)} {record : Record Value}
    (tame : Tame ids calls place (front ++ record :: back) rows) (last : record.id ∉ back.map Record.id)
    (made : (calls (place+front.length)).thrown = none) :
    ∃ row, (pass calls place (front ++ record :: back) rows).find record.id = some row ∧ Holds record row := by
  have here := (tame_append tame).1
  rw [pass_append]
  generalize pass calls place front rows = before at here
  have turn := upsert_turn (calls (place+front.length)) record before
  rw [pass]
  generalize upsertOf (calls (place+front.length)) record before = after at turn
  cases turn with
  | thrown threw => exact absurd made threw
  | taken foreign there used => exact absurd (here _ foreign there made).2 last
  | moved row foreign there free found => exact absurd (here _ foreign there made).2 last
  | written row holds found =>
    exact ⟨row,pass_keeps ((found record.id).trans (if_pos rfl)) last,holds⟩

end Passes

section Batches
variable {Value : Type}

-- The calls behind the transaction: without a delegate each of them throws.
def reached (table : SyncTable) (delegate : Bool) (calls : Nat → Call Value) (place : Nat) : Call Value :=
  if delegate then calls place else { calls place with thrown := some (unknownTable table) }

theorem syncRecord_upsert (table : SyncTable) (delegate : Bool) (calls : Nat → Call Value) (place : Nat) (record : Record Value) (rows : Rows Value) :
    (syncRecord table record.id record.data delegate (calls place) rows).1 =
        settled rows (upsertOf (reached table delegate calls place) record rows) := by
  unfold syncRecord reached upsertOf
  cases delegate with
  | false => simp [upsert,settled]
  | true =>
    simp only [Bool.not_true,Bool.false_eq_true,if_false,if_true]
    cases upsert (calls place) record.id record.data { record.data with id := some record.id } rows <;> rfl

theorem syncEach_pass (table : SyncTable) (delegate : Bool) (calls : Nat → Call Value) (place : Nat) (records : List (Record Value)) (s : Progress Value) :
    (syncEach table delegate calls place records s).rows = pass (reached table delegate calls) place records s.rows ∧
      (syncEach table delegate calls place records s).synced + (syncEach table delegate calls place records s).errors.length =
        s.synced + s.errors.length + records.length := by
  induction records generalizing place s with
  | nil => exact ⟨rfl,rfl⟩
  | cons record rest ih =>
    rw [syncEach,pass,← syncRecord_upsert]
    dsimp only
    split
    · obtain ⟨table_,counts⟩ := ih (place+1) ⟨_,s.synced+1,s.errors⟩
      refine ⟨table_,counts.trans ?_⟩
      dsimp only
      rw [List.length_cons]
      omega
    · obtain ⟨table_,counts⟩ := ih (place+1) ⟨_,s.synced,s.errors ++ [_]⟩
      refine ⟨table_,counts.trans ?_⟩
      dsimp only
      rw [List.length_append,List.length_singleton,List.length_cons]
      omega

-- A transaction that commits has made every call.
theorem upsertAll_pass (calls : Nat → Call Value) (place : Nat) (records : List (Record Value)) (s : Rows Value × Nat)
    (ran : upsertAll calls place records s = .ok next) :
    next = (pass calls place records s.1,s.2+records.length) ∧ ∀ i < records.length, (calls (place+i)).thrown = none := by
  induction records generalizing place s with
  | nil =>
    refine ⟨(Except.ok.inj ran).symm,?_⟩
    intro i inside
    exact absurd inside (Nat.not_lt_zero i)
  | cons record rest ih =>
    rw [upsertAll] at ran
    cases made : upsert (calls place) record.id record.data { record.data with id := some record.id } s.1 with
    | error message =>
      rw [made] at ran
      cases ran
    | ok rows =>
      rw [made] at ran
      obtain ⟨rfl,later⟩ := ih (place+1) (rows,s.2+1) ran
      have threw : (calls place).thrown = none := by
        by_contra threw
        obtain ⟨message,own⟩ := Option.ne_none_iff_exists'.mp threw
        simp [upsert,own] at made
      refine ⟨?_,?_⟩
      · rw [pass,upsertOf,made,settled,List.length_cons]
        simp only [Prod.mk.injEq,true_and]
        omega
      · intro i inside
        cases i with
        | zero => exact threw
        | succ i =>
          have here := later i (Nat.lt_of_succ_lt_succ inside)
          rwa [show place+1+i = place+(i+1) by omega] at here

theorem transact_pass (table : SyncTable) (records : List (Record Value)) (transaction : Transaction Value) (rows : Rows Value)
    (ran : transact table records transaction rows = .ok s) :
    s = (pass transaction.calls 0 records rows,records.length) ∧ ∀ i < records.length, (transaction.calls i).thrown = none := by
  unfold transact at ran
  cases begins : transaction.begins with
  | some message =>
    rw [begins] at ran
    cases ran
  | none =>
    cases delegate : transaction.delegate with
    | false =>
      rw [begins,delegate] at ran
      cases ran
    | true =>
      rw [begins,delegate] at ran
      cases made : upsertAll transaction.calls 0 records (rows,0) with
      | error message =>
        rw [made] at ran
        cases ran
      | ok next =>
        rw [made] at ran
        cases commits : transaction.commits with
        | some message =>
          rw [commits] at ran
          cases ran
        | none =>
          rw [commits] at ran
          obtain rfl := Except.ok.inj ran
          obtain ⟨same,calls⟩ := upsertAll_pass transaction.calls 0 records (rows,0) made
          rw [Nat.zero_add] at same
          refine ⟨same,?_⟩
          intro i inside
          have here := calls i inside
          rwa [Nat.zero_add] at here

-- The calls whose effects stay.
def keptCalls (table : SyncTable) (records : List (Record Value)) (transaction : Transaction Value) (delegate : Bool) (alone : Nat → Call Value)
    (rows : Rows Value) : Nat → Call Value :=
  if (transact table records transaction rows).isOk then transaction.calls else reached table delegate alone

variable (table : SyncTable) (records : List (Record Value)) (transaction : Transaction Value) (delegate : Bool) (alone : Nat → Call Value)
  (rows : Rows Value)

theorem syncBatch_pass : (syncBatch table records transaction delegate alone rows).1 =
    pass (keptCalls table records transaction delegate alone rows) 0 records rows := by
  unfold syncBatch keptCalls
  split
  · next none_ =>
    rw [List.length_eq_zero_iff.mp none_]
    rfl
  · cases ran : transact table records transaction rows with
    | error message =>
      rw [if_neg (by simp [Except.isOk,Except.toBool])]
      exact (syncEach_pass table delegate alone 0 records ⟨rows,0,[]⟩).1
    | ok s =>
      rw [if_pos (by simp [Except.isOk,Except.toBool])]
      obtain ⟨rfl,-⟩ := transact_pass table records transaction rows ran
      rfl

structure Counted (result : BatchSyncResult) (total : Nat) : Prop where
  total : result.synced + result.failed = result.total ∧ result.total = total
  success : result.success = true ↔ result.failed = 0
  errors : result.errors.length = result.failed

theorem syncBatch_counted : Counted (syncBatch table records transaction delegate alone rows).2 records.length := by
  unfold syncBatch
  split
  · next none_ =>
    rw [none_]
    exact ⟨⟨rfl,rfl⟩,by simp,rfl⟩
  · cases ran : transact table records transaction rows with
    | error message =>
      have counts := (syncEach_pass table delegate alone 0 records ⟨rows,0,[]⟩).2
      simp only [List.length_nil,Nat.zero_add] at counts
      refine ⟨⟨?_,rfl⟩,by simp,?_⟩
      · dsimp only
        omega
      · dsimp only
        omega
    | ok s =>
      obtain ⟨rfl,-⟩ := transact_pass table records transaction rows ran
      exact ⟨⟨rfl,rfl⟩,by simp,rfl⟩

-- Where no step that stays moves a row away, the batch is as claimed.
theorem tame_reports (tame : Tame (records.map Record.id) (keptCalls table records transaction delegate alone rows) 0 records rows) :
    Reports table records transaction delegate alone rows (syncBatch table records transaction delegate alone rows).1
      (syncBatch table records transaction delegate alone rows).2 := by
  have counted := syncBatch_counted table records transaction delegate alone rows
  refine ⟨?_,?_,counted.total,counted.success,counted.errors⟩
  · intro k other
    rw [syncBatch_pass]
    exact pass_elsewhere tame (fun record member => List.mem_map_of_mem member) other
  · intro front record back whole last can
    have made : (keptCalls table records transaction delegate alone rows (0+front.length)).thrown = none := by
      unfold keptCalls
      rw [Nat.zero_add]
      cases ran : transact table records transaction rows with
      | error message =>
        rw [ran] at can
        obtain committed | ⟨there,call⟩ := can
        · cases committed
        · rw [if_neg (by simp [Except.isOk,Except.toBool]),reached,there]
          exact call
      | ok s =>
        rw [if_pos (by simp [Except.isOk,Except.toBool])]
        apply (transact_pass table records transaction rows ran).2
        rw [whole,List.length_append,List.length_cons]
        omega
    rw [syncBatch_pass]
    generalize keptCalls table records transaction delegate alone rows = calls at tame made ⊢
    generalize records.map Record.id = ids at tame
    subst whole
    exact pass_last tame last made

theorem harmless_tame (harmless : ∀ front record back, records = front ++ record :: back → ∀ other, Foreign record other →
    other ∈ ids ∧ record.id ∈ back.map Record.id) (calls : Nat → Call Value) (place : Nat) : Tame ids calls place records rows := by
  induction records generalizing place rows with
  | nil => trivial
  | cons record rest ih =>
    refine ⟨fun other foreign _ _ => harmless [] record rest rfl other foreign,ih _ ?_ _⟩
    intro front other back whole
    exact harmless (record :: front) other back (by rw [whole]; rfl)

end Batches

section Moves
variable {Value : Type}

theorem pass_thrown {calls : Nat → Call Value} {records : List (Record Value)} {rows : Rows Value}
    (threw : ∀ i < records.length, (calls (place+i)).thrown ≠ none) : pass calls place records rows = rows := by
  induction records generalizing place with
  | nil => rfl
  | cons record rest ih =>
    have first : (calls place).thrown ≠ none := threw 0 (Nat.zero_lt_succ _)
    rw [pass,upsert_thrown first,ih]
    intro i inside
    rw [show place+1+i = place+(i+1) by omega]
    exact threw (i+1) (Nat.succ_lt_succ inside)

def single (id : Text) : Rows Value := ⟨[⟨id,fun _ => none⟩],List.nodup_singleton id⟩

theorem find_single (id k : Text) : (single id : Rows Value).find k = if id = k then some ⟨id,fun _ => none⟩ else none := by
  by_cases same : id = k
  · simp [single,Table.find,same]
  · simp [single,Table.find,same]

-- Only the call of one place is made.
def only (i j : Nat) : Call Value := ⟨if j = i then none else some [],[],fun _ => none⟩

-- The row of the record goes by the id in its data, and nothing is left under
-- its own.
theorem single_moved {front back : List (Record Value)} {record : Record Value} (foreign : Foreign record other) :
    (pass (only front.length) 0 (front ++ record :: back) (single record.id)).find record.id = none ∧
      (pass (only front.length) 0 (front ++ record :: back) (single record.id)).find other ≠ none := by
  have before : pass (only front.length) 0 front (single record.id) = (single record.id : Rows Value) := by
    apply pass_thrown
    intro i inside
    simp [only,Nat.ne_of_lt inside]
  have made : (only front.length (0+front.length) : Call Value).thrown = none := by simp [only]
  have free : (single record.id : Rows Value).find other = none := by rw [find_single,if_neg foreign.2.symm]
  have held : (single record.id : Rows Value).find record.id = some ⟨record.id,fun _ => none⟩ := by rw [find_single,if_pos rfl]
  have moved : upsertOf (only front.length (0+front.length)) record (single record.id) = .ok
      (((single record.id).delete record.id fun _ => true).upsert
        ⟨other,(only front.length (0+front.length)).written record.data fun _ => none⟩) := by
    unfold upsertOf upsert
    rw [made]
    dsimp only
    rw [held]
    dsimp only
    rw [foreign.1,Option.getD_some,if_neg (fun both => both.2 free)]
  rw [pass_append,before,pass,moved,settled,pass_thrown]
  · rw [find_replaced,find_replaced]
    simp [foreign.2.symm]
  · intro i _
    have past : 0+front.length+1+i ≠ front.length := by omega
    rw [only,if_neg past]
    simp

-- The lists of records for which a batch does what is claimed of it, whatever
-- the table holds and whichever calls throw; and of any list where no step that
-- stays moves a row away.
theorem batch_exact (table : SyncTable) (records : List (Record Value)) :
    ((∀ (transaction : Transaction Value) (delegate : Bool) (alone : Nat → Call Value) (rows : Rows Value),
        Reports table records transaction delegate alone rows (syncBatch table records transaction delegate alone rows).1
          (syncBatch table records transaction delegate alone rows).2) ↔ Harmless records) ∧
      ∀ (transaction : Transaction Value) (delegate : Bool) (alone : Nat → Call Value) (rows : Rows Value),
        Tame (records.map Record.id) (keptCalls table records transaction delegate alone rows) 0 records rows →
        Reports table records transaction delegate alone rows (syncBatch table records transaction delegate alone rows).1
          (syncBatch table records transaction delegate alone rows).2 := by
  refine ⟨⟨?_,?_⟩,tame_reports table records⟩
  · intro reports front record back whole other foreign
    have own := reports ⟨some [],true,only front.length,none⟩ true (only front.length) (single record.id)
    have after : (pass (only front.length) 0 (front ++ record :: back) (single record.id)).find record.id = none ∧ _ := single_moved foreign
    have same : (syncBatch table records ⟨some [],true,only front.length,none⟩ true (only front.length) (single record.id)).1 =
        pass (only front.length) 0 (front ++ record :: back) (single record.id) := by
      rw [syncBatch_pass,← whole]
      rfl
    rw [← same] at after
    constructor
    · by_contra outside
      apply after.2
      rw [own.elsewhere other outside,find_single,if_neg foreign.2.symm]
    · by_contra last
      obtain ⟨row,held,-⟩ := own.last front record back whole last (.inr ⟨rfl,by simp [only]⟩)
      rw [after.1] at held
      cases held
  · intro harmless transaction delegate alone rows
    exact tame_reports table records transaction delegate alone rows (harmless_tame records rows harmless _ 0)

def hashOf (value : Text) (column : Text) : Option Text := if column = "hash".toList then some value else none

-- Calls that do what they are for, in a transaction that commits.
def quiet : Call Text := ⟨none,[],fun _ => none⟩

def committing : Transaction Text := ⟨none,true,fun _ => quiet,none⟩

def plain : Record Text := ⟨"fc-1".toList,⟨none,hashOf "new".toList⟩⟩

def carrying : Record Text := ⟨"fc-1".toList,⟨some "fc-2".toList,hashOf "new".toList⟩⟩

-- A record of the table's own id, and one of another id where its row is new.
theorem plain_synced :
    (∀ (transaction : Transaction Text) (delegate : Bool) (alone : Nat → Call Text) (rows : Rows Text),
      Reports .filterCache [plain] transaction delegate alone rows (syncBatch .filterCache [plain] transaction delegate alone rows).1
        (syncBatch .filterCache [plain] transaction delegate alone rows).2) ∧
    Reports .filterCache [carrying] committing true (fun _ => quiet) ⟨[],List.nodup_nil⟩
      (syncBatch .filterCache [carrying] committing true (fun _ => quiet) ⟨[],List.nodup_nil⟩).1
      (syncBatch .filterCache [carrying] committing true (fun _ => quiet) ⟨[],List.nodup_nil⟩).2 := by
  constructor
  · apply (batch_exact .filterCache [plain]).1.mpr
    intro front record back whole other foreign
    have member : record ∈ [plain] := by
      rw [whole]
      simp
    rw [List.mem_singleton.mp member] at foreign
    cases foreign.1
  · apply (batch_exact .filterCache [carrying]).2
    exact ⟨fun other foreign there => absurd rfl there,trivial⟩

-- The update of a row takes the id of the payload with it.
theorem carrying_moves : ¬Reports .filterCache [carrying] committing true (fun _ => quiet) (single "fc-1".toList)
    (syncBatch .filterCache [carrying] committing true (fun _ => quiet) (single "fc-1".toList)).1
    (syncBatch .filterCache [carrying] committing true (fun _ => quiet) (single "fc-1".toList)).2 := by
  intro reports
  have same := congrArg Option.isSome (reports.elsewhere "fc-2".toList (by decide))
  revert same
  decide

end Moves

end AdblockCompiler.CacheSync
