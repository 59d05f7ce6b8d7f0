import AdblockCompiler.Schedules
import AdblockCompiler.StorageAdapters

-- One sequence of operations sent to both adapters.
namespace AdblockCompiler.StorageAgreement
open JsText KeyedRows Schedules StorageAdapters

variable {α : Type}

inductive Op (α : Type) where
  | set (key : List Text) (value : α) (ttlMs : Option Int)
  | get (key : List Text)
  | delete (key : List Text)
  | list (options : QueryOptions)
  | cacheFilterList (source : Text) (content : List Text) (hash : Text) (etag : Option Text) (ttlMs : Option Int)
  | getCachedFilterList (source : Text)
  | advance (ms : Nat)

inductive Answer (α : Type) where
  | entry (entry : Option (StorageEntry α))
  | entries (items : List (List Text × StorageEntry α))
  | cached (entry : Option CacheEntry)
  | written
  deriving DecidableEq

def outcome (adapter : Adapter) (db : Database α) (now : Int) : Op α → Database α
  | .set key value ttlMs => (adapter.set db now key value ttlMs).1
  | .get key => (adapter.get db now key).1
  | .delete key => (adapter.delete db key).1
  | .cacheFilterList source content hash etag ttlMs => (adapter.cacheFilterList db now source content hash etag ttlMs).1
  | .getCachedFilterList source => (adapter.getCachedFilterList db now source).1
  | .list _ | .advance _ => db

def answer (adapter : Adapter) (db : Database α) (now : Int) : Op α → Answer α
  | .get key => .entry (adapter.get db now key).2
  | .list options => .entries (adapter.list db now options)
  | .getCachedFilterList source => .cached (adapter.getCachedFilterList db now source).2
  | .set _ _ _ | .delete _ | .cacheFilterList _ _ _ _ _ | .advance _ => .written

structure Both (α : Type) where
  d1 : Database α
  hyperdrive : Database α
  now : Int

def start (now : Int) : Both α := ⟨.empty,.empty,now⟩

def elapsed : Op α → Nat
  | .advance ms => ms
  | _ => 0

structure Adapters where
  sqlite : PrismaClient
  d1 : D1StorageConfig
  postgres : PrismaClient
  hyperdrive : HyperdriveStorageConfig

def Adapters.one (a : Adapters) : Adapter := .d1 a.sqlite a.d1
def Adapters.two (a : Adapters) : Adapter := .hyperdrive a.postgres a.hyperdrive

section Configured

variable (a : Adapters)

def step (s : Both α) (op : Op α) : Option (Both α) :=
  some ⟨outcome a.one s.d1 s.now op,outcome a.two s.hyperdrive s.now op,s.now+elapsed op⟩

def SameAnswer (s : Both α) (op : Op α) : Prop := answer a.one s.d1 s.now op = answer a.two s.hyperdrive s.now op

instance [DecidableEq α] (s : Both α) (op : Op α) : Decidable (SameAnswer a s op) := inferInstanceAs (Decidable (_ = _))

-- Where the two do the same: entries are stored with a TTL that is not negative,
-- or without one if D1 has no default; filter lists with a positive TTL, or by
-- equal defaults; and a query selects the same unexpired rows by both readings
-- of prefix, start and end.
def alike (s : Both α) : Op α → Bool
  | .set _ _ ttlMs => if let some ttl := ttlMs then 0 ≤ ttl else a.d1.defaultTtlMs ≤ 0
  | .cacheFilterList _ _ _ _ ttlMs => if let some ttl := ttlMs then 0 < ttl else a.d1.defaultTtlMs = a.hyperdrive.defaultTtlMs
  | .list options => s.d1.storageEntry.rows.all fun row =>
    !unexpired s.now row.expiresAt || D1StorageAdapter.wanted a.sqlite options row == HyperdriveStorageAdapter.wanted a.postgres options row
  | .get _ | .delete _ | .getCachedFilterList _ | .advance _ => true

theorem entryExpiry_alike (s : Both α) (key : List Text) (value : α) (met : alike a s (.set key value ttlMs) = true) :
    D1StorageAdapter.computeExpiry a.d1 s.now ttlMs = HyperdriveStorageAdapter.entryExpiry s.now ttlMs := by
  cases ttlMs with
  | none =>
    have none : a.d1.defaultTtlMs ≤ 0 := of_decide_eq_true met
    simp [D1StorageAdapter.computeExpiry,HyperdriveStorageAdapter.entryExpiry,none]
  | some ttl =>
    have some : 0 ≤ ttl := of_decide_eq_true met
    by_cases zero : ttl = 0
    · simp [D1StorageAdapter.computeExpiry,HyperdriveStorageAdapter.entryExpiry,zero]
    · have positive : ¬ttl ≤ 0 := by omega
      simp [D1StorageAdapter.computeExpiry,HyperdriveStorageAdapter.entryExpiry,zero,positive,Option.filter_some]

theorem listExpiry_alike (s : Both α) (source : Text) (content : List Text) (hash : Text) (etag : Option Text)
    (met : alike a s (.cacheFilterList source content hash etag ttlMs) = true) :
    D1StorageAdapter.computeExpiry a.d1 s.now ttlMs = HyperdriveStorageAdapter.listExpiry a.hyperdrive s.now ttlMs := by
  have positive : ¬ttlMs.getD a.d1.defaultTtlMs ≤ 0 ∧ ttlMs.getD a.d1.defaultTtlMs = ttlMs.getD a.hyperdrive.defaultTtlMs := by
    cases ttlMs with
    | none =>
      have same : a.d1.defaultTtlMs = a.hyperdrive.defaultTtlMs := of_decide_eq_true met
      have some := a.hyperdrive.positive
      exact ⟨by rw [Option.getD_none,same]; omega,same⟩
    | some ttl =>
      have some : 0 < ttl := of_decide_eq_true met
      exact ⟨Int.not_le.mpr some,rfl⟩
  obtain ⟨lasting,same⟩ := positive
  have shown : ¬(ttlMs.getD a.d1.defaultTtlMs = 0 ∨ ttlMs.getD a.d1.defaultTtlMs ≤ 0) := by omega
  rw [HyperdriveStorageAdapter.listExpiry,← same]
  exact if_neg shown

-- From one database both adapters reach one database.
theorem outcome_alike (s : Both α) (same : s.d1 = s.hyperdrive) (met : alike a s op = true) :
    outcome a.one s.d1 s.now op = outcome a.two s.hyperdrive s.now op := by
  rw [← same]
  cases op with
  | set key value ttlMs => exact congrArg (storeEntry s.d1 s.now key value) (entryExpiry_alike a s key value met)
  | get key =>
    simp only [outcome,get_exact,readEntry]
    split
    · rfl
    · split <;> rfl
  | delete key => rfl
  | list options => rfl
  | cacheFilterList source content hash etag ttlMs =>
    exact congrArg (storeFilterList s.d1 s.now source content hash etag) (listExpiry_alike a s source content hash etag met)
  | getCachedFilterList source => rfl
  | advance ms => rfl

-- Nothing writes tags, which one of the adapters would return.
def Untagged (db : Database α) : Prop := ∀ row ∈ db.storageEntry.rows, row.tags = none

theorem untagged_outcome (adapter : Adapter) (untagged : Untagged db) (now : Int) (op : Op α) : Untagged (outcome adapter db now op) := by
  intro row member
  cases op with
  | set key value ttlMs =>
    simp only [outcome,set_exact] at member
    have found := find_exact.mpr ⟨member,rfl⟩
    rw [find_store] at found
    split at found
    · rw [← Option.some.inj found]
      cases old : db.storageEntry.find row.key with
      | none => rfl
      | some earlier => exact untagged earlier (find_exact.mp old).1
    · exact untagged row (find_exact.mp found).1
  | get key =>
    simp only [outcome,get_exact] at member
    exact untagged row (read_row member)
  | delete key =>
    simp only [outcome,delete_exact] at member
    exact untagged row (remove_row.mp member).1
  | list options => exact untagged row member
  | cacheFilterList source content hash etag ttlMs => cases adapter <;> exact untagged row member
  | getCachedFilterList source =>
    have kept : (outcome adapter db now (.getCachedFilterList source)).storageEntry = db.storageEntry := by
      simp only [outcome,getCached_exact]
      exact list_entries db now source
    rw [kept] at member
    exact untagged row member
  | advance ms => exact untagged row member

theorem entry_alike (untagged : row.tags = none) : a.one.entry row = (a.two.entry row : StorageEntry α) := by
  show StorageEntry.mk _ _ _ _ _ = StorageEntry.mk _ _ _ _ _
  rw [untagged]

theorem answer_alike (s : Both α) (same : s.d1 = s.hyperdrive) (untagged : Untagged s.d1) (met : alike a s op = true) : SameAnswer a s op := by
  unfold SameAnswer
  rw [← same]
  cases op with
  | set key value ttlMs => rfl
  | get key =>
    simp only [answer,get_exact,read_value]
    refine congrArg Answer.entry ?_
    cases found : s.d1.storageEntry.find (serializeKey key) with
    | none => rfl
    | some row =>
      rw [Option.filter_some]
      split
      · exact congrArg some (entry_alike a (untagged row (find_exact.mp found).1))
      · rfl
  | delete key => rfl
  | list options =>
    have chosen : s.d1.storageEntry.rows.filter (fun row => unexpired s.now row.expiresAt && a.one.wanted options row) =
        s.d1.storageEntry.rows.filter fun row => unexpired s.now row.expiresAt && a.two.wanted options row := by
      refine List.filter_congr ?_
      intro row member
      have met := List.all_eq_true.mp met row member
      cases fresh : unexpired s.now row.expiresAt with
      | false => rfl
      | true =>
        rw [fresh] at met
        exact eq_of_beq met
    simp only [answer,list_exact,queryEntries,Table.select,chosen]
    refine congrArg Answer.entries (List.map_congr_left ?_)
    intro row member
    rw [entry_alike a (untagged row (select_mem member).1)]
  | cacheFilterList source content hash etag ttlMs => rfl
  | getCachedFilterList source => rfl
  | advance ms => rfl

-- An entry without expiry, and the operations that can end it.
def Lasting (text : Text) (value : α) (db : Database α) : Prop :=
  ∃ row, db.storageEntry.find text = some row ∧ row.data = value ∧ row.expiresAt = none

def writes (text : Text) : Op α → Bool
  | .set key _ _ | .delete key => serializeKey key = text
  | _ => false

theorem lasting_set (db : Database α) (now : Int) (key : List Text) (value : α) :
    Lasting (serializeKey key) value (storeEntry db now key value none) := by
  unfold Lasting
  rw [find_store,if_pos rfl]
  refine ⟨_,rfl,?_⟩
  cases db.storageEntry.find (serializeKey key) <;> exact ⟨rfl,rfl⟩

theorem lasting_outcome (adapter : Adapter) (now : Int) (lasting : Lasting text value db) (spared : writes text op = false) :
    Lasting text value (outcome adapter db now op) := by
  obtain ⟨row,found,holds,endless⟩ := lasting
  cases op with
  | set key other ttlMs =>
    have apart : text ≠ serializeKey key := fun same => of_decide_eq_false spared same.symm
    refine ⟨row,?_,holds,endless⟩
    simp only [outcome,set_exact]
    rw [find_store,if_neg apart]
    exact found
  | get key =>
    refine ⟨row,?_,holds,endless⟩
    simp only [outcome,get_exact]
    rw [find_read,found]
    split
    · rw [Option.filter_some,endless]
      rfl
    · rfl
  | delete key =>
    have apart : text ≠ serializeKey key := fun same => of_decide_eq_false spared same.symm
    refine ⟨row,?_,holds,endless⟩
    simp only [outcome,delete_exact]
    rw [find_remove,if_neg apart]
    exact found
  | list options => exact ⟨row,found,holds,endless⟩
  | cacheFilterList source content hash etag ttlMs =>
    cases adapter <;> exact ⟨row,found,holds,endless⟩
  | getCachedFilterList source =>
    have kept : (outcome adapter db now (.getCachedFilterList source)).storageEntry = db.storageEntry := by
      simp only [outcome,getCached_exact]
      exact list_entries db now source
    exact ⟨row,(congrArg (·.find text) kept).trans found,holds,endless⟩
  | advance ms => exact ⟨row,found,holds,endless⟩

theorem lasting_read (adapter : Adapter) (now : Int) (lasting : Lasting (serializeKey key) value db) :
    ∃ entry, answer adapter db now (.get key) = .entry (some entry) ∧ entry.data = value := by
  obtain ⟨row,found,holds,endless⟩ := lasting
  refine ⟨adapter.entry row,?_,(entry_data adapter row).trans holds⟩
  rw [answer,get_exact,read_value,found,Option.filter_some,endless]
  rfl

-- A value set without a TTL is read until a set or a delete of its key.
def Stays (s : Both α) (ops : List (Op α)) : Prop :=
  ∀ first key value rest, ops = first ++ .set key value none :: rest → (∀ op ∈ rest, writes (serializeKey key) op = false) →
    ∀ t, run (step a) s ops = some t →
      (∃ entry, answer a.one t.d1 t.now (.get key) = .entry (some entry) ∧ entry.data = value) ∧
        ∃ entry, answer a.two t.hyperdrive t.now (.get key) = .entry (some entry) ∧ entry.data = value

theorem same_step (s : Both α) (op : Op α) (t : Both α) (same : s.d1 = s.hyperdrive ∧ Untagged s.d1) (stepped : step a s op = some t)
    (met : alike a s op = true) : t.d1 = t.hyperdrive ∧ Untagged t.d1 := by
  cases stepped
  exact ⟨outcome_alike a s same.1 met,untagged_outcome a.one same.2 s.now op⟩

theorem stays_lasting {s t : Both α} (ran : run (step a) s rest = some t) (spared : ∀ op ∈ rest, writes text op = false)
    (one : Lasting text value s.d1) (two : Lasting text value s.hyperdrive) :
    Lasting text value t.d1 ∧ Lasting text value t.hyperdrive := by
  induction rest generalizing s with
  | nil =>
    obtain rfl := Option.some.inj ran
    exact ⟨one,two⟩
  | cons op rest ih =>
    obtain ⟨next,stepped,after⟩ := run_cons.mp ran
    obtain ⟨here,later⟩ := List.forall_mem_cons.mp spared
    cases stepped
    exact ih after later (lasting_outcome _ s.now one here) (lasting_outcome _ s.now two here)

theorem alike_stays (s : Both α) (same : s.d1 = s.hyperdrive ∧ Untagged s.d1) (met : Along (step a) (fun s op _ => alike a s op = true) s ops) :
    Stays a s ops := by
  rintro first key value rest rfl spared t ran
  obtain ⟨middle,before,after⟩ := run_append.mp ran
  obtain ⟨next,stepped,later⟩ := run_cons.mp after
  obtain ⟨early,late⟩ := along_append.mp met
  have equal := (along_keeps (fun s => s.d1 = s.hyperdrive ∧ Untagged s.d1) (same_step a) same early before).1
  obtain ⟨-,-,here,-⟩ := late middle before
  have expiry := entryExpiry_alike a middle key value here
  cases stepped
  have one : Lasting (serializeKey key) value (outcome a.one middle.d1 middle.now (.set key value none)) := by
    rw [outcome,set_exact,Adapters.one,Adapter.expiry,expiry]
    exact lasting_set _ _ _ _
  have two : Lasting (serializeKey key) value (outcome a.two middle.hyperdrive middle.now (.set key value none)) :=
    lasting_set _ _ _ _
  obtain ⟨left,right⟩ := stays_lasting a later spared one two
  exact ⟨lasting_read _ _ left,lasting_read _ _ right⟩

theorem adapters_agree (now : Int) (ops : List (Op α))
    (met : Along (step a) (fun s op _ => alike a s op = true) (start now) ops) :
    Along (step a) (fun s op _ => SameAnswer a s op) (start now) ops ∧ Stays a (start now) ops := by
  have empty : (start now : Both α).d1 = (start now).hyperdrive ∧ Untagged (start now : Both α).d1 := ⟨rfl,fun _ member => by cases member⟩
  refine ⟨?_,alike_stays a (start now) empty met⟩
  refine along_weaken (fun s => s.d1 = s.hyperdrive ∧ Untagged s.d1) (same_step a) ?_ empty met
  intro s op t same _ here
  exact answer_alike a s same.1 same.2 here

end Configured

-- D1 without a default TTL, and reads well after one would have passed.
def undying : List (Op Text) :=
  [.set ["a".toList] "v".toList none,.advance 4000000,.set ["b".toList] "w".toList (some 5),.list .all,.get ["a".toList]]

def withoutTtl : Adapters := ⟨.sqlite,⟨0⟩,.postgres,.default⟩
def byDefault : Adapters := ⟨.sqlite,.default,.postgres,.default⟩

theorem undying_alike : Along (step withoutTtl) (fun s op _ => SameAnswer withoutTtl s op) (start 0) undying ∧
    Stays withoutTtl (start 0) undying :=
  adapters_agree withoutTtl 0 undying ⟨_,rfl,rfl,_,rfl,rfl,_,rfl,rfl,_,rfl,rfl,_,rfl,rfl,trivial⟩

-- With the defaults of both, a value set without a TTL is gone from D1 after an hour.
def anHourLater : List (Op Text) := [.set ["a".toList] "v".toList none,.advance 3600001,.get ["a".toList]]

theorem anHourLater_gone : (run (step byDefault) (start 0) anHourLater).isSome = true ∧
    ¬Along (step byDefault) (fun s op _ => SameAnswer byDefault s op) (start 0) anHourLater := by
  refine ⟨rfl,?_⟩
  intro along
  obtain ⟨_,one,-,_,two,-,_,three,last,-⟩ := along
  cases one; cases two; cases three
  exact absurd last (by decide)

end AdblockCompiler.StorageAgreement
