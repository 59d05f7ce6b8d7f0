import AdblockCompiler.Hosts
import AdblockCompiler.StorageAdapters

-- Snapshots of sources: a current one each, and archived ones.
namespace AdblockCompiler.ChangeDetector
open JsText Hosts KeyedRows StorageAdapters SourceRecords

def timestampText : Int → Text
  | .ofNat n => decimal n
  | .negSucc n => '-' :: decimal (n+1)

def currentKey (source : Text) : List Text := ["snapshots".toList,"sources".toList,source]
def historyKey (source : Text) : List Text := ["snapshots".toList,"history".toList,source]
def archiveKey (source : Text) (timestamp : Int) : List Text :=
  ["snapshots".toList,"history".toList,source,timestampText timestamp]

structure ChangeDetectionResult where
  hasChanged : Bool
  previous : Option SourceSnapshot
  current : SourceSnapshot
  ruleCountDelta : Int
  ruleCountChangePercent : Rat
  timeSinceLastSnapshot : Option Int

def createSnapshot (now : Int) (source : Text) (content : List Text) (hash : Text) (etag : Option Text) : SourceSnapshot :=
  ⟨source,now,hash,content.length,content.take 10,etag⟩

section Storage

variable (adapter : Adapter) (db : Database SourceRecord) (now : Int)

def storeSnapshot (snapshot : SourceSnapshot) : Database SourceRecord :=
  (adapter.set db now (currentKey snapshot.source) (.snapshot snapshot) none).1

def getLastSnapshot (source : Text) : Database SourceRecord × Option SourceSnapshot :=
  let (db,entry) := adapter.get db now (currentKey source)
  (db,entry.bind fun entry => entry.data.asSnapshot)

def detectChanges (source : Text) (content : List Text) (hash : Text) (etag : Option Text) : Database SourceRecord × ChangeDetectionResult :=
  let current := createSnapshot now source content hash etag
  let (db,last) := getLastSnapshot adapter db now source
  match last with
  | none => (db,⟨true,none,current,current.ruleCount,100,none⟩)
  | some previous =>
    let ruleCountDelta : Int := current.ruleCount - previous.ruleCount
    let percent : Rat := if previous.ruleCount > 0 then ruleCountDelta / previous.ruleCount * 100 else 0
    (db,⟨previous.hash ≠ current.hash,some previous,current,ruleCountDelta,percent,some (current.timestamp-previous.timestamp)⟩)

def detectAndStore (source : Text) (content : List Text) (hash : Text) (etag : Option Text) : Database SourceRecord × ChangeDetectionResult :=
  let (db,result) := detectChanges adapter db now source content hash etag
  (storeSnapshot adapter db now result.current,result)

def historyQuery (source : Text) (limit : Option Int) (reverse : Bool) : QueryOptions := ⟨some (historyKey source),limit,none,none,reverse⟩

def getSnapshotHistory (source : Text) (limit : Int) : List SourceSnapshot :=
  (adapter.list db now (historyQuery source (some limit) true)).filterMap fun item => item.2.data.asSnapshot

def archiveSnapshot (snapshot : SourceSnapshot) : Database SourceRecord :=
  (adapter.set db now (archiveKey snapshot.source snapshot.timestamp) (.snapshot snapshot) none).1

def clearSourceSnapshots (source : Text) : Database SourceRecord :=
  let db := (adapter.delete db (currentKey source)).1
  let historyEntries := adapter.list db now (historyQuery source none false)
  historyEntries.foldl (fun db entry => (adapter.delete db entry.1).1) db

end Storage

-- Texts of keys: a stem the two kinds differ in, and what follows it.
def stem (kind : Text) : Text := "snapshots".toList ++ '/' :: (kind ++ ['/'])

theorem serialize_current (source : Text) : serializeKey (currentKey source) = stem "sources".toList ++ source := serialize_three _ _ _

theorem serialize_history (source : Text) : serializeKey (historyKey source) = stem "history".toList ++ source := serialize_three _ _ _

theorem serialize_archive (source : Text) (timestamp : Int) :
    serializeKey (archiveKey source timestamp) = stem "history".toList ++ (source ++ '/' :: timestampText timestamp) :=
  serialize_four _ _ _ _

theorem startsWith_stem (kind text first : Text) : startsWith (stem kind ++ text) (stem kind ++ first) = startsWith text first := by
  rw [Bool.eq_iff_iff]
  simp only [startsWith,List.isPrefixOf_iff_prefix,List.prefix_append_right_inj]

theorem stems_apart (text first : Text) : startsWith (stem "sources".toList ++ text) (stem "history".toList ++ first) = false := rfl

theorem timestamp_free (timestamp : Int) : '/' ∉ timestampText timestamp := by
  have digits (n : Nat) : '/' ∉ decimal n := fun member => by cases decimal_digit member
  cases timestamp with
  | ofNat n => exact digits n
  | negSucc n =>
    intro member
    rcases List.mem_cons.mp member with equal | inside
    · cases equal
    · exact digits _ inside

-- A separator found below another text is found in the text before the last one.
theorem below_separator {one other last : Text} (free : '/' ∉ last) :
    startsWith (other ++ '/' :: last) (one ++ ['/']) = true ↔ other = one ∨ startsWith other (one ++ ['/']) = true := by
  rw [startsWith_iff,startsWith_iff]
  constructor
  · intro found
    obtain ⟨rest,same⟩ := found
    rw [List.append_assoc,List.singleton_append] at same
    rcases List.append_eq_append_iff.mp same with ⟨more,longer,tail⟩ | ⟨more,shorter,tail⟩
    · cases more with
      | nil => exact .inl (by simpa using longer.symm)
      | cons c more =>
        obtain ⟨rfl,inside⟩ := List.cons.inj tail
        exact absurd (inside ▸ List.mem_append_right more List.mem_cons_self) free
    · cases more with
      | nil => exact .inl (by simpa using shorter)
      | cons c more =>
        obtain ⟨rfl,inside⟩ := List.cons.inj tail
        exact .inr ⟨more,by rw [shorter,List.append_assoc,List.singleton_append]⟩
  · intro either
    rcases either with rfl | ⟨rest,rfl⟩
    · exact ⟨last,by rw [List.append_assoc,List.singleton_append]⟩
    · exact ⟨rest ++ '/' :: last,by rw [List.append_assoc]⟩

-- The stem that a query for a source's history asks for: D1 puts a separator
-- after the source, Hyperdrive does not.
def historyStem (adapter : Adapter) (source : Text) : Text :=
  match adapter with
  | .d1 _ _ => serializeKey (historyKey source) ++ ['/']
  | .hyperdrive _ _ => serializeKey (historyKey source)

def reaches (adapter : Adapter) (source key : Text) : Bool := adapter.prisma.startsWith (historyStem adapter source) key

theorem wanted_history (adapter : Adapter) (row : StorageRow SourceRecord) (source : Text) (limit : Option Int) (reverse : Bool) :
    adapter.wanted (historyQuery source limit reverse) row = reaches adapter source row.key := by
  cases adapter with
  | d1 prisma config => rfl
  | hyperdrive prisma config =>
    show (prisma.startsWith (serializeKey (historyKey source)) row.key && true && true) = _
    rw [Bool.and_true,Bool.and_true]
    rfl

inductive Op where
  | store (snapshot : SourceSnapshot)
  | archive (snapshot : SourceSnapshot)
  | detect (source : Text) (content : List Text) (hash : Text) (etag : Option Text)
  | last (source : Text)
  | clear (source : Text)
  | advance (ms : Nat)

def perform (adapter : Adapter) (s : Store SourceRecord) : Op → Store SourceRecord
  | .store snapshot => { s with db := storeSnapshot adapter s.db s.now snapshot }
  | .archive snapshot => { s with db := archiveSnapshot adapter s.db s.now snapshot }
  | .detect source content hash etag => { s with db := (detectAndStore adapter s.db s.now source content hash etag).1 }
  | .last source => { s with db := (getLastSnapshot adapter s.db s.now source).1 }
  | .clear source => { s with db := clearSourceSnapshots adapter s.db s.now source }
  | .advance ms => { s with now := s.now+ms }

def after (adapter : Adapter) (ops : List Op) : Store SourceRecord := ops.foldl (perform adapter) ⟨.empty,0⟩

-- A row holds a snapshot, under the key of its source.
inductive Filed (row : StorageRow SourceRecord) (snapshot : SourceSnapshot) : Prop where
  | current (holds : row.data = .snapshot snapshot) (named : row.key = serializeKey (currentKey snapshot.source))
  | archived (holds : row.data = .snapshot snapshot) (named : row.key = serializeKey (archiveKey snapshot.source snapshot.timestamp))

def AllFiled (db : Database SourceRecord) : Prop := ∀ row ∈ db.storageEntry.rows, ∃ snapshot, Filed row snapshot

theorem set_filed (adapter : Adapter) (filed : AllFiled db) (now : Int) (key : List Text) (snapshot : SourceSnapshot)
    (own : ∀ row : StorageRow SourceRecord, row.key = serializeKey key → row.data = .snapshot snapshot → Filed row snapshot) :
    AllFiled (adapter.set db now key (.snapshot snapshot) none).1 := by
  intro row member
  rw [set_exact] at member
  rcases store_row member with ⟨named,holds⟩ | old
  · exact ⟨snapshot,own row named holds⟩
  · exact filed row old

theorem store_filed (adapter : Adapter) (filed : AllFiled db) (now : Int) (snapshot : SourceSnapshot) :
    AllFiled (storeSnapshot adapter db now snapshot) :=
  set_filed adapter filed now _ snapshot fun _ named holds => .current holds named

theorem archive_filed (adapter : Adapter) (filed : AllFiled db) (now : Int) (snapshot : SourceSnapshot) :
    AllFiled (archiveSnapshot adapter db now snapshot) :=
  set_filed adapter filed now _ snapshot fun _ named holds => .archived holds named

theorem last_filed (adapter : Adapter) (filed : AllFiled db) (now : Int) (source : Text) :
    AllFiled (getLastSnapshot adapter db now source).1 := by
  intro row member
  rw [getLastSnapshot,get_exact] at member
  exact filed row (read_row member)

theorem detect_filed (adapter : Adapter) (filed : AllFiled db) (now : Int) (source : Text) (content : List Text) (hash : Text)
    (etag : Option Text) : AllFiled (detectAndStore adapter db now source content hash etag).1 := by
  refine store_filed adapter (?_ : AllFiled (detectChanges adapter db now source content hash etag).1) now _
  unfold detectChanges
  dsimp only
  split <;> exact last_filed adapter filed now source

-- Deleting what a query returned.
theorem foldl_removed (adapter : Adapter) (items : List (List Text × StorageEntry SourceRecord)) (db : Database SourceRecord) :
    row ∈ (items.foldl (fun db entry => (adapter.delete db entry.1).1) db).storageEntry.rows ↔
      row ∈ db.storageEntry.rows ∧ ∀ item ∈ items, row.key ≠ serializeKey item.1 := by
  induction items generalizing db with
  | nil => simp
  | cons item items ih =>
    rw [List.foldl_cons,ih,delete_exact,remove_row,List.forall_mem_cons,and_assoc]

def Hit (adapter : Adapter) (now : Int) (source : Text) (row : StorageRow SourceRecord) : Prop :=
  unexpired now row.expiresAt = true ∧ adapter.wanted (historyQuery source none false) row = true

theorem clear_exact (adapter : Adapter) (db : Database SourceRecord) (now : Int) (source : Text) :
    row ∈ (clearSourceSnapshots adapter db now source).storageEntry.rows ↔
      row ∈ db.storageEntry.rows ∧ row.key ≠ serializeKey (currentKey source) ∧ ¬Hit adapter now source row := by
  rw [clearSourceSnapshots,foldl_removed,delete_exact,remove_row,and_assoc,list_exact]
  refine and_congr_right fun present => and_congr_right fun other => ?_
  constructor
  · intro spared hit
    have selected : row ∈ (removeEntry db (currentKey source)).storageEntry.select
        (fun row => unexpired now row.expiresAt && adapter.wanted (historyQuery source none false) row) false none :=
      select_all.mpr ⟨remove_row.mpr ⟨present,other⟩,Bool.and_eq_true_iff.mpr hit⟩
    have item := List.mem_map_of_mem (f := fun row => (deserializeKey row.key,adapter.entry row)) selected
    exact spared _ item (serialize_deserialize row.key).symm
  · intro missed item member named
    obtain ⟨listed,there,fresh,meant,rfl⟩ := listed member
    rw [serialize_deserialize] at named
    have same : row = listed := db.storageEntry.same present (remove_row.mp there).1 named
    exact missed ⟨same ▸ fresh,same ▸ meant⟩

theorem clear_filed (adapter : Adapter) (filed : AllFiled db) (now : Int) (source : Text) :
    AllFiled (clearSourceSnapshots adapter db now source) :=
  fun row member => filed row ((clear_exact adapter db now source).mp member).1

theorem filed_after (adapter : Adapter) (ops : List Op) : AllFiled (after adapter ops).db := by
  induction ops using List.reverseRecOn with
  | nil => exact fun _ member => absurd member List.not_mem_nil
  | append_singleton ops op ih =>
    rw [after,List.foldl_append]
    cases op with
    | store snapshot => exact store_filed adapter ih _ snapshot
    | archive snapshot => exact archive_filed adapter ih _ snapshot
    | detect source content hash etag => exact detect_filed adapter ih _ source content hash etag
    | last source => exact last_filed adapter ih _ source
    | clear source => exact clear_filed adapter ih _ source
    | advance ms => exact ih

-- Clearing one source leaves the rows of all others, and a source's history
-- holds its own snapshots only.
def Isolated (adapter : Adapter) (s : Store SourceRecord) (source : Text) : Prop :=
  (∀ row ∈ s.db.storageEntry.rows, row.data.source ≠ source →
    row ∈ (clearSourceSnapshots adapter s.db s.now source).storageEntry.rows) ∧
    ∀ limit, ∀ snapshot ∈ getSnapshotHistory adapter s.db s.now source limit, snapshot.source = source

-- No unexpired snapshot of another source has a key that the database takes to
-- begin with the stem of this one's history.
def Unreached (adapter : Adapter) (s : Store SourceRecord) (source : Text) : Prop :=
  ∀ row ∈ s.db.storageEntry.rows, row.data.source ≠ source → unexpired s.now row.expiresAt = true → reaches adapter source row.key = false

theorem isolated_unreached (isolated : Isolated adapter s source) : Unreached adapter s source := by
  intro row member owner fresh
  have left := ((clear_exact adapter s.db s.now source).mp (isolated.1 row member owner)).2.2
  rw [← Bool.not_eq_true]
  intro reached
  exact left ⟨fresh,(wanted_history adapter row source none false).trans reached⟩

-- A row that a query for one source's history takes in.
theorem wanted_own (adapter : Adapter) (unreached : Unreached adapter s source) (member : row ∈ s.db.storageEntry.rows)
    (fresh : unexpired s.now row.expiresAt = true) (meant : adapter.wanted (historyQuery source limit reverse) row = true) :
    row.data.source = source := by
  by_contra differ
  rw [wanted_history,unreached row member differ fresh] at meant
  cases meant

theorem current_apart (differ : one ≠ other) : serializeKey (currentKey one) ≠ serializeKey (currentKey other) := by
  rw [serialize_current,serialize_current]
  exact fun same => differ (List.append_cancel_left same)

theorem archive_current (one other : Text) (timestamp : Int) : serializeKey (archiveKey one timestamp) ≠ serializeKey (currentKey other) := by
  intro same
  rw [serialize_archive,serialize_current] at same
  have apart := stems_apart other []
  rw [← same,List.append_nil,startsWith_append] at apart
  cases apart

theorem filed_source (filed : Filed row snapshot) : row.data = .snapshot snapshot := by
  cases filed with
  | current holds named => exact holds
  | archived holds named => exact holds

theorem ownership_exact (adapter : Adapter) (ops : List Op) (source : Text) :
    Isolated adapter (after adapter ops) source ↔ Unreached adapter (after adapter ops) source := by
  refine ⟨isolated_unreached,?_⟩
  intro unreached
  have allFiled := filed_after adapter ops
  constructor
  · intro row member owner
    obtain ⟨snapshot,filed⟩ := allFiled row member
    have differ : snapshot.source ≠ source := by
      rw [filed_source filed] at owner
      exact owner
    refine (clear_exact adapter _ _ source).mpr ⟨member,?_,?_⟩
    · cases filed with
      | current holds named =>
        rw [named]
        exact current_apart differ
      | archived holds named =>
        rw [named]
        apply archive_current
    · intro hit
      exact owner (wanted_own adapter unreached member hit.1 hit.2)
  · intro limit snapshot member
    obtain ⟨item,listed,same⟩ := List.mem_filterMap.mp member
    rw [list_exact] at listed
    obtain ⟨row,present,fresh,meant,rfl⟩ := StorageAdapters.listed listed
    obtain ⟨kept,filed⟩ := allFiled row present
    have owner := wanted_own adapter unreached present fresh meant
    rw [entry_data,filed_source filed] at same
    obtain rfl := Option.some.inj same
    rw [filed_source filed] at owner
    exact owner

section Literally
variable {adapter : Adapter} {source : Text}

-- A stem that the database takes as it is written.
def Read (adapter : Adapter) (source : Text) : Prop :=
  ∀ key, adapter.prisma.startsWith (historyStem adapter source) key = startsWith key (historyStem adapter source)

def Archived (row : StorageRow SourceRecord) (snapshot : SourceSnapshot) : Prop :=
  row.data = .snapshot snapshot ∧ row.key = serializeKey (archiveKey snapshot.source snapshot.timestamp)

-- Whether one source's history takes in an archived snapshot of another.
def below (adapter : Adapter) (source other : Text) (timestamp : Int) : Bool :=
  match adapter with
  | .d1 _ _ => startsWith other (source ++ ['/'])
  | .hyperdrive _ _ => startsWith (other ++ '/' :: timestampText timestamp) source

theorem reaches_archive (read : Read adapter source) (differ : other ≠ source) (timestamp : Int) :
    reaches adapter source (serializeKey (archiveKey other timestamp)) = below adapter source other timestamp := by
  rw [reaches,read]
  cases adapter with
  | d1 prisma config =>
    rw [historyStem,serialize_archive,serialize_history,List.append_assoc,startsWith_stem,below,Bool.eq_iff_iff,
      below_separator (timestamp_free timestamp)]
    exact or_iff_right differ
  | hyperdrive prisma config => rw [historyStem,serialize_archive,serialize_history,startsWith_stem,below]

theorem reaches_current (read : Read adapter source) (other : Text) : reaches adapter source (serializeKey (currentKey other)) = false := by
  rw [reaches,read]
  cases adapter with
  | d1 prisma config =>
    rw [historyStem,serialize_current,serialize_history,List.append_assoc]
    apply stems_apart
  | hyperdrive prisma config =>
    rw [historyStem,serialize_current,serialize_history]
    apply stems_apart

-- There only archived snapshots can be reached: of a source below this one, or
-- on Hyperdrive of one that continues its text.
theorem unreached_literal (read : Read adapter source) (ops : List Op) :
    Unreached adapter (after adapter ops) source ↔
      ∀ row ∈ (after adapter ops).db.storageEntry.rows, ∀ snapshot, Archived row snapshot → snapshot.source ≠ source →
        unexpired (after adapter ops).now row.expiresAt = true → below adapter source snapshot.source snapshot.timestamp = false := by
  constructor
  · intro unreached row member snapshot archived differ fresh
    obtain ⟨holds,named⟩ := archived
    have missed := unreached row member (by rw [holds]; exact differ) fresh
    rwa [named,reaches_archive read differ] at missed
  · intro apart row member owner fresh
    obtain ⟨snapshot,filed⟩ := filed_after adapter ops row member
    have differ : snapshot.source ≠ source := by
      rw [filed_source filed] at owner
      exact owner
    cases filed with
    | current holds named => rw [named,reaches_current read]
    | archived holds named => rw [named,reaches_archive read differ,apart row member snapshot ⟨holds,named⟩ differ fresh]

theorem literal_read (literal : adapter.prisma.Literal) (source : Text) : Read adapter source := fun key => literal _ key

-- PostgreSQL takes the stem as written where the source has none of its marks.
theorem postgres_read (config : HyperdriveStorageConfig) (plain : ∀ c ∈ source, c ≠ '_' ∧ c ≠ '%' ∧ c ≠ '\\') :
    Read (.hyperdrive .postgres config) source := by
  have whole : serializeKey (historyKey source) = stem "history".toList ++ source := serialize_history source
  have marks : ∀ c ∈ stem "history".toList, c ≠ '_' ∧ c ≠ '%' ∧ c ≠ '\\' := every_char (by decide)
  intro key
  refine postgres_plain ?_ key
  show ∀ c ∈ serializeKey (historyKey source), _
  rw [whole]
  exact fun c member => (List.mem_append.mp member).elim (marks c) (plain c)

end Literally

-- One source is a path below another, continues its text, or is what its text
-- stands for as a pattern.
def snapshotOf (source : Text) : SourceSnapshot := ⟨source,5,"hash".toList,1,["rule".toList],none⟩

theorem reached_shared : ¬Isolated (.d1 .sqlite .default) (after (.d1 .sqlite .default) [.archive (snapshotOf "a/b".toList)]) "a".toList ∧
    ¬Isolated (.hyperdrive .postgres .default) (after (.hyperdrive .postgres .default) [.archive (snapshotOf "list2".toList)]) "list".toList ∧
    ¬Isolated (.d1 .sqlite .default) (after (.d1 .sqlite .default) [.archive (snapshotOf "aXb".toList)]) "a_b".toList := by
  have broken (adapter : Adapter) (other source : Text) (fresh : unexpired 0 (adapter.expiry 0 none) = true) (differ : other ≠ source)
      (reached : reaches adapter source (serializeKey (archiveKey other 5)) = true) :
      ¬Isolated adapter (after adapter [.archive (snapshotOf other)]) source := by
    intro isolated
    obtain ⟨row,found,expires,holds⟩ : ∃ row, (after adapter [.archive (snapshotOf other)]).db.storageEntry.find
        (serializeKey (archiveKey other 5)) = some row ∧ row.expiresAt = adapter.expiry 0 none ∧ row.data = .snapshot (snapshotOf other) := by
      simp only [after,List.foldl_cons,List.foldl_nil,perform,archiveSnapshot,set_exact]
      exact ⟨_,(find_store _ _ _ _ _ _).trans (if_pos rfl),rfl,rfl⟩
    obtain ⟨present,named⟩ := find_exact.mp found
    have missed := isolated_unreached isolated row present (by rw [holds]; exact differ) (by rw [expires]; exact fresh)
    rw [named,reached] at missed
    cases missed
  exact ⟨broken _ _ _ (by decide) (by decide) (by decide),broken _ _ _ (by decide) (by decide) (by decide),
    broken _ _ _ (by decide) (by decide) (by decide)⟩

end AdblockCompiler.ChangeDetector
