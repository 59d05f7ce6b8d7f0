import AdblockCompiler.ChangeLogs
import AdblockCompiler.JsonText
import AdblockCompiler.KeyedRows

-- The feature flags of the admin database: their table, what evaluates them, and
-- the requests that change them with an entry in the audit log for each.
namespace AdblockCompiler.FeatureFlags
open JsText JsonText KeyedRows ChangeLogs Schedules

-- The JSON columns are kept as the lists they stand for.
structure FeatureFlagRow where
  id : Nat
  flag_name : Text
  enabled : Bool
  rollout_percentage : Nat
  target_tiers : List Text
  target_users : List Text
  description : Text
  created_by : Option Text
  created_at : Text
  updated_at : Text
  deriving DecidableEq

structure CreateFeatureFlagRequest where
  flag_name : Text
  enabled : Bool := false
  rollout_percentage : Nat := 100
  target_tiers : List Text := []
  target_users : List Text := []
  description : Text := []

structure UpdateFeatureFlagRequest where
  enabled : Option Bool := none
  rollout_percentage : Option Nat := none
  target_tiers : Option (List Text) := none
  target_users : Option (List Text) := none
  description : Option Text := none

-- /^[a-z0-9_.-]+$/
def isFlagName (name : Text) : Bool := name ≠ [] && name.all fun c => c.isLower || c.isDigit || c == '_' || c == '.' || c == '-'

def CreateFeatureFlagRequestSchema (data : CreateFeatureFlagRequest) : Bool :=
  (codeUnits data.flag_name).length ≤ 100 && isFlagName data.flag_name && data.rollout_percentage ≤ 100 &&
    (codeUnits data.description).length ≤ 500

def UpdateFeatureFlagRequestSchema (data : UpdateFeatureFlagRequest) : Bool :=
  data.rollout_percentage.all (· ≤ 100) && data.description.all fun description => (codeUnits description).length ≤ 500

-- The table, and the last id that AUTOINCREMENT has given.
structure Db where
  flags : Table FeatureFlagRow.flag_name
  sequence : Nat

def Db.empty : Db := ⟨⟨[],List.nodup_nil⟩,0⟩

def getFeatureFlag (db : Db) (flagName : Text) : Option FeatureFlagRow := db.flags.find flagName

-- none where flag_name is not UNIQUE.
def createFeatureFlag (db : Db) (data : CreateFeatureFlagRequest) (createdBy now : Text) : Option (Db × FeatureFlagRow) :=
  let row : FeatureFlagRow := ⟨db.sequence+1,data.flag_name,data.enabled,data.rollout_percentage,data.target_tiers,data.target_users,
    data.description,some createdBy,now,now⟩
  if fresh : db.flags.find row.flag_name = none then some (⟨db.flags.insert row fresh,db.sequence+1⟩,row) else none

-- The SET clauses.
def UpdateFeatureFlagRequest.set (data : UpdateFeatureFlagRequest) (now : Text) (row : FeatureFlagRow) : FeatureFlagRow :=
  { row with
    enabled := data.enabled.getD row.enabled
    rollout_percentage := data.rollout_percentage.getD row.rollout_percentage
    target_tiers := data.target_tiers.getD row.target_tiers
    target_users := data.target_users.getD row.target_users
    description := data.description.getD row.description
    updated_at := now }

theorem set_keeps (data : UpdateFeatureFlagRequest) (now : Text) (row : FeatureFlagRow) (named : row.flag_name = flagName) :
    (data.set now row).flag_name = flagName := named

def UpdateFeatureFlagRequest.isEmpty (data : UpdateFeatureFlagRequest) : Bool :=
  data.enabled.isNone && data.rollout_percentage.isNone && data.target_tiers.isNone && data.target_users.isNone && data.description.isNone

def updateFeatureFlag (db : Db) (flagName : Text) (data : UpdateFeatureFlagRequest) (now : Text) : Db × Option FeatureFlagRow :=
  if data.isEmpty then (db,getFeatureFlag db flagName)
  else
    let flags := db.flags.update flagName (data.set now) (set_keeps data now)
    ({ db with flags := flags },flags.find flagName)

def deleteFeatureFlag (db : Db) (flagName : Text) : Db × Bool :=
  ({ db with flags := db.flags.delete flagName fun _ => true },(db.flags.find flagName).isSome)

structure FlagEvaluationContext where
  userTier : Option Text := none
  userId : Option Text := none

def simpleHash (str : Text) : Nat := (codeUnits str).sum%100

-- An empty text is falsy.
def given (value : Option Text) : Option Text := value.filter fun text => text ≠ []

def evaluateFlag (db : Db) (flagName : Text) (context : FlagEvaluationContext) : Bool :=
  match getFeatureFlag db flagName with
  | none => false
  | some flag =>
    if !flag.enabled then false
    else if flag.target_users ≠ [] ∧ (given context.userId).any (flag.target_users.contains ·) then true
    else if flag.target_tiers ≠ [] ∧ !(given context.userTier).any (flag.target_tiers.contains ·) then false
    else if 100 ≤ flag.rollout_percentage then true
    else if flag.rollout_percentage = 0 then false
    else
      match given context.userId with
      | none => false
      | some userId => simpleHash (flagName ++ userId) < flag.rollout_percentage

-- The admin who sends a request, and its headers.
structure Caller where
  user_id : Text
  headers : Text → Option Text

structure AuditContext where
  actor_id : Text
  actor_email : Option Text
  ip_address : Option Text
  user_agent : Option Text
  deriving DecidableEq

def createAuditContext (caller : Caller) : AuditContext where
  actor_id := caller.user_id
  actor_email := none
  ip_address := caller.headers "cf-connecting-ip".toList <|> caller.headers "x-forwarded-for".toList
  user_agent := caller.headers "user-agent".toList

-- What the schemas let through, from an admin that may write flags.
inductive Request where
  | create (data : CreateFeatureFlagRequest) (accepted : CreateFeatureFlagRequestSchema data = true) (caller : Caller)
  | update (flagName : Text) (data : UpdateFeatureFlagRequest) (accepted : UpdateFeatureFlagRequestSchema data = true) (caller : Caller)
  | delete (flagName : Text) (caller : Caller)

-- metadata is what writeAuditLog stores where an entry has none.
structure AuditLogEntry extends AuditContext where
  action : Text
  resource_type : Text
  resource_id : Text
  old_values : Option FeatureFlagRow
  new_values : Option FeatureFlagRow
  status : Text
  metadata : Option Text := none
  deriving DecidableEq

def Request.auditEntry (request : Request) (change : Change Text FeatureFlagRow) : AuditLogEntry :=
  let entry (caller : Caller) (action : String) : AuditLogEntry :=
    { createAuditContext caller with
      action := action.toList
      resource_type := "feature_flag".toList
      resource_id := change.key
      old_values := change.old
      new_values := change.new
      status := "success".toList }
  match request with
  | .create _ _ caller => entry caller "flag.create"
  | .update _ _ _ caller => entry caller "flag.update"
  | .delete _ caller => entry caller "flag.delete"

-- The flag that the handler reads before it changes it. A flag that is not there
-- cannot be deleted.
def Request.oldFlag (request : Request) (db : Db) : Option (Option FeatureFlagRow) :=
  match request with
  | .create _ _ _ => some none
  | .update flagName _ _ _ => some (getFeatureFlag db flagName)
  | .delete flagName _ => (getFeatureFlag db flagName).map some

def Request.change (request : Request) (oldFlag : Option FeatureFlagRow) (now : Text) (db : Db) : Option (Db × Change Text FeatureFlagRow) :=
  match request with
  | .create data _ caller => (createFeatureFlag db data caller.user_id now).map fun created => (created.1,⟨created.2.flag_name,none,some created.2⟩)
  | .update flagName data _ _ =>
    let done := updateFeatureFlag db flagName data now
    done.2.map fun updated => (done.1,⟨flagName,oldFlag,some updated⟩)
  | .delete flagName _ =>
    let done := deleteFeatureFlag db flagName
    if done.2 then some (done.1,⟨flagName,oldFlag,none⟩) else none

section Evaluation

-- Whom a flag that is on reaches: the users it names, and of the tiers it is for
-- a share that the rollout decides, the anonymous only with the whole of them.
def FeatureFlagRow.Reaches (flag : FeatureFlagRow) (context : FlagEvaluationContext) : Prop :=
  (∃ userId ∈ flag.target_users, given context.userId = some userId) ∨
    (flag.target_tiers ≠ [] → ∃ tier ∈ flag.target_tiers, given context.userTier = some tier) ∧
      (100 ≤ flag.rollout_percentage ∨
        ∃ userId, given context.userId = some userId ∧ simpleHash (flag.flag_name ++ userId) < flag.rollout_percentage)

theorem any_contains (value : Option Text) (texts : List Text) : value.any (texts.contains ·) = true ↔ ∃ text ∈ texts, value = some text := by
  cases value with
  | none => simp
  | some text => simp

theorem evaluate_exact (db : Db) (flagName : Text) (context : FlagEvaluationContext) :
    evaluateFlag db flagName context = true ↔ ∃ flag, getFeatureFlag db flagName = some flag ∧ flag.enabled = true ∧ flag.Reaches context := by
  rw [evaluateFlag]
  cases found : getFeatureFlag db flagName with
  | none => simp
  | some flag =>
    have named : flag.flag_name = flagName := (find_exact.mp found).2
    have users : flag.target_users ≠ [] ∧ (given context.userId).any (flag.target_users.contains ·) = true ↔
        ∃ userId ∈ flag.target_users, given context.userId = some userId := by
      rw [any_contains]
      refine ⟨And.right,?_⟩
      intro reached
      obtain ⟨userId,member,same⟩ := reached
      exact ⟨List.ne_nil_of_mem member,userId,member,same⟩
    have tiers : ¬(flag.target_tiers ≠ [] ∧ (!(given context.userTier).any (flag.target_tiers.contains ·)) = true) ↔
        (flag.target_tiers ≠ [] → ∃ tier ∈ flag.target_tiers, given context.userTier = some tier) := by
      rw [← any_contains]
      simp
    have rollout : (if 100 ≤ flag.rollout_percentage then true else if flag.rollout_percentage = 0 then false else
        match given context.userId with
        | none => false
        | some userId => decide (simpleHash (flagName ++ userId) < flag.rollout_percentage)) = true ↔
          100 ≤ flag.rollout_percentage ∨
            ∃ userId, given context.userId = some userId ∧ simpleHash (flagName ++ userId) < flag.rollout_percentage := by
      by_cases whole : 100 ≤ flag.rollout_percentage
      · simp [whole]
      · rw [if_neg whole]
        by_cases zero : flag.rollout_percentage = 0
        · simp [zero]
        · rw [if_neg zero]
          cases given context.userId <;> simp [whole]
    simp only [Option.some.injEq,exists_eq_left',FeatureFlagRow.Reaches,named,← users,← tiers,← rollout]
    cases enabled : flag.enabled with
    | false => simp
    | true =>
      simp only [Bool.not_true,Bool.false_eq_true,if_false,true_and]
      split
      · rename_i one
        exact ⟨fun _ => .inl one,fun _ => rfl⟩
      · rename_i one
        split
        · rename_i two
          exact ⟨fun same => (by cases same),fun reached => absurd two (reached.resolve_left one).1⟩
        · rename_i two
          exact ⟨fun reached => .inr ⟨two,reached⟩,fun reached => (reached.resolve_left one).2⟩

-- Raising the rollout of a flag takes it from nobody, and leaves the others.
theorem rollout_grows (db : Db) (changed : Text) (data : UpdateFeatureFlagRequest) (now : Text) (flagName : Text) (context : FlagEvaluationContext)
    (others : data.enabled = none ∧ data.target_tiers = none ∧ data.target_users = none)
    (raised : ∀ flag percentage, getFeatureFlag db changed = some flag → data.rollout_percentage = some percentage →
      flag.rollout_percentage ≤ percentage)
    (active : evaluateFlag db flagName context = true) : evaluateFlag (updateFeatureFlag db changed data now).1 flagName context = true := by
  obtain ⟨flag,found,enabled,reaches⟩ := (evaluate_exact db flagName context).mp active
  obtain ⟨switch,tiers,users⟩ := others
  refine (evaluate_exact _ flagName context).mpr ?_
  simp only [updateFeatureFlag]
  split
  · exact ⟨flag,found,enabled,reaches⟩
  · by_cases mine : flagName = changed
    · subst mine
      have wider : flag.rollout_percentage ≤ data.rollout_percentage.getD flag.rollout_percentage := by
        cases shape : data.rollout_percentage with
        | none => exact Nat.le_refl _
        | some percentage => exact raised flag percentage found shape
      refine ⟨data.set now flag,?_,?_,?_⟩
      · refine (find_update db.flags flagName (data.set now) (set_keeps data now) flagName).trans ?_
        rw [if_pos rfl]
        exact congrArg (Option.map (data.set now)) found
      · simpa [UpdateFeatureFlagRequest.set,switch] using enabled
      · simp only [FeatureFlagRow.Reaches,UpdateFeatureFlagRequest.set,tiers,users,Option.getD_none]
        obtain named | ⟨tier,share⟩ := reaches
        · exact .inl named
        · refine .inr ⟨tier,?_⟩
          obtain whole | ⟨userId,same,bucket⟩ := share
          · exact .inl (Nat.le_trans whole wider)
          · exact .inr ⟨userId,same,Nat.lt_of_lt_of_le bucket wider⟩
    · refine ⟨flag,?_,enabled,reaches⟩
      exact ((find_update db.flags changed (data.set now) (set_keeps data now) flagName).trans (if_neg mine)).trans found

end Evaluation

section Changes

-- What a request changes is the flag that its entry names, and the entry has the
-- flag as it is then.
theorem change_tells (request : Request) (oldFlag : Option FeatureFlagRow) (now : Text) (db t : Db) (change : Change Text FeatureFlagRow)
    (made : request.change oldFlag now db = some (t,change)) :
    getFeatureFlag t = Function.update (getFeatureFlag db) change.key change.new := by
  cases request with
  | create data accepted caller =>
    obtain ⟨created,inserted,same⟩ := Option.map_eq_some_iff.mp made
    cases same
    simp only [createFeatureFlag] at inserted
    split at inserted
    · rename_i fresh
      cases inserted
      funext name
      rw [getFeatureFlag,find_insert,Function.update_apply]
      rfl
    · cases inserted
  | update flagName data accepted caller =>
    obtain ⟨updated,found,same⟩ := Option.map_eq_some_iff.mp made
    cases same
    simp only [updateFeatureFlag] at found ⊢
    split at found
    · rename_i nothing
      rw [if_pos nothing]
      funext name
      rw [Function.update_apply]
      split
      · rename_i mine
        rw [mine]
        exact found
      · rfl
    · rename_i some_
      rw [if_neg some_]
      funext name
      rw [Function.update_apply]
      split
      · rename_i mine
        rw [mine]
        exact found
      · rename_i other
        exact (find_update db.flags flagName (data.set now) (set_keeps data now) name).trans (if_neg other)
  | delete flagName caller =>
    simp only [Request.change] at made
    split at made
    · cases made
      funext name
      rw [getFeatureFlag,deleteFeatureFlag,find_delete,Function.update_apply]
      split
      · cases db.flags.find flagName <;> rfl
      · rfl
    · cases made

variable {ι : Type}

def system (requests : ι → Request) : System ι Db Text FeatureFlagRow (Option FeatureFlagRow) Text where
  look := getFeatureFlag
  read request db := (requests request).oldFlag db
  change request oldFlag now db := (requests request).change oldFlag now db
  tells request oldFlag now db t change made := change_tells (requests request) oldFlag now db t change made

def auditLogs (requests : ι → Request) (s : State ι Db Text FeatureFlagRow (Option FeatureFlagRow)) : List AuditLogEntry :=
  s.log.map fun entry => (requests entry.1).auditEntry entry.2

-- The flags that an audit log tells of, read from its start.
def readBack (logs : List AuditLogEntry) : Text → Option FeatureFlagRow :=
  logs.foldl (fun flags entry => Function.update flags entry.resource_id entry.new_values) fun _ => none

end Changes

section Rows

-- What FeatureFlagRowSchema asks of a row, and the request schemas before it.
def FeatureFlagRow.Valid (row : FeatureFlagRow) : Prop :=
  isFlagName row.flag_name = true ∧ (codeUnits row.flag_name).length ≤ 100 ∧ row.rollout_percentage ≤ 100 ∧
    (codeUnits row.description).length ≤ 500

structure Sound (db : Db) : Prop where
  valid : ∀ row ∈ db.flags.rows, row.Valid
  given : ∀ row ∈ db.flags.rows, row.id ≤ db.sequence
  ids : (db.flags.rows.map FeatureFlagRow.id).Nodup

theorem sound_empty : Sound Db.empty := by
  refine ⟨?_,?_,List.nodup_nil⟩
  · intro row member
    cases member
  · intro row member
    cases member

theorem set_valid (accepted : UpdateFeatureFlagRequestSchema data = true) (now : Text) (valid : row.Valid) : (data.set now row).Valid := by
  obtain ⟨name,short,rollout,description⟩ := valid
  obtain ⟨percentage,text⟩ := Bool.and_eq_true_iff.mp accepted
  refine ⟨name,short,?_,?_⟩
  · cases shape : data.rollout_percentage with
    | none => simpa [UpdateFeatureFlagRequest.set,shape] using rollout
    | some percent => simpa [UpdateFeatureFlagRequest.set,shape] using percentage
  · cases shape : data.description with
    | none => simpa [UpdateFeatureFlagRequest.set,shape] using description
    | some next => simpa [UpdateFeatureFlagRequest.set,shape] using text

theorem change_sound (request : Request) (sound : Sound db) (made : request.change oldFlag now db = some (t,change)) : Sound t := by
  cases request with
  | create data accepted caller =>
    obtain ⟨created,inserted,same⟩ := Option.map_eq_some_iff.mp made
    cases same
    simp only [createFeatureFlag] at inserted
    split at inserted
    · cases inserted
      simp only [CreateFeatureFlagRequestSchema,Bool.and_eq_true,decide_eq_true_eq] at accepted
      obtain ⟨⟨⟨short,name⟩,rollout⟩,description⟩ := accepted
      refine ⟨forall_append sound.valid ⟨name,short,rollout,description⟩,?_,?_⟩
      · exact forall_append (fun row member => Nat.le_succ_of_le (sound.given row member)) (Nat.le_refl _)
      · simp only [Table.insert,List.map_append,List.map_singleton]
        refine List.Nodup.append sound.ids (List.nodup_singleton _) ?_
        rw [List.disjoint_singleton]
        intro member
        obtain ⟨row,inside,same⟩ := List.mem_map.mp member
        have bound := sound.given row inside
        omega
    · cases inserted
  | update flagName data accepted caller =>
    obtain ⟨updated,found,same⟩ := Option.map_eq_some_iff.mp made
    cases same
    simp only [updateFeatureFlag]
    split
    · exact sound
    · have kept : ∀ row, (if row.flag_name = flagName then data.set now row else row).id = row.id := by
        intro row
        split <;> rfl
      refine ⟨?_,?_,?_⟩
      · simp only [Table.update,List.forall_mem_map]
        intro row member
        split
        · exact set_valid accepted now (sound.valid row member)
        · exact sound.valid row member
      · simp only [Table.update,List.forall_mem_map]
        intro row member
        rw [kept]
        exact sound.given row member
      · simp only [Table.update,List.map_map]
        have same : FeatureFlagRow.id ∘ (fun row => if row.flag_name = flagName then data.set now row else row) = FeatureFlagRow.id := funext kept
        rw [same]
        exact sound.ids
  | delete flagName caller =>
    simp only [Request.change] at made
    split at made
    · cases made
      refine ⟨?_,?_,sound.ids.sublist (List.filter_sublist.map _)⟩
      · exact fun row member => sound.valid row (List.mem_of_mem_filter member)
      · exact fun row member => sound.given row (List.mem_of_mem_filter member)
    · cases made

end Rows

section Runs
variable {ι : Type} [DecidableEq ι] {requests : ι → Request} {s t : State ι Db Text FeatureFlagRow (Option FeatureFlagRow)}

theorem step_sound (sound : Sound s.store) (stepped : step (system requests) s event = some t) : Sound t.store := by
  cases step_turn stepped with
  | read waits => exact sound
  | refuse reads none_ => exact sound
  | enter changed => exact sound
  | stop unfinished => exact sound
  | change reads made =>
    rename_i party oldFlag now store change
    exact change_sound (requests party) sound made

omit [DecidableEq ι] in
theorem readBack_replay (requests : ι → Request) (s : State ι Db Text FeatureFlagRow (Option FeatureFlagRow)) :
    readBack (auditLogs requests s) = replay (s.log.map Prod.snd) fun _ => none := by
  rw [readBack,auditLogs,replay,List.foldl_map,List.foldl_map]
  congr 1
  funext flags entry
  cases requests entry.1 <;> rfl

-- However the requests of admins overlap and wherever they stop: the rows pass
-- their schema and no two share an id; each change that was made is in the audit
-- log once, unless its request still owes its entry or was given up, and nothing
-- else is; and when no change is made while another waits for its entry, and all
-- are entered, the log reads back the table.
theorem flags_audited (requests : ι → Request) (events : List (Event ι Text)) {s : State ι Db Text FeatureFlagRow (Option FeatureFlagRow)}
    (ran : run (step (system requests)) (opened Db.empty) events = some s) :
    Sound s.store ∧
      (getFeatureFlag s.store = replay (s.journal.map Prod.snd) fun _ => none) ∧
        (∀ entry ∈ s.log, entry ∈ s.journal) ∧ (s.log.map Prod.fst).Nodup ∧
          (∀ entry ∈ s.journal, entry ∈ s.log ∨ s.stage entry.1 = .changed entry.2 ∨ s.stage entry.1 = .ended) ∧
          (∀ entry ∈ s.journal, s.stage entry.1 = .entered → entry ∈ s.log) ∧ (Paid s → s.log.Perm s.journal) ∧
          (Along (step (system requests)) Orderly (opened Db.empty) events → Paid s →
            getFeatureFlag s.store = readBack (auditLogs requests s)) ∧
            (Along (step (system requests)) (Current (system requests)) (opened Db.empty) events →
              Chained (s.journal.map Prod.snd) fun _ => none) := by
  have told := run_told ran
  have sound : Sound s.store := by
    exact run_keeps (fun s : State ι Db Text FeatureFlagRow (Option FeatureFlagRow) => Sound s.store)
      (fun _ _ _ sound stepped => step_sound sound stepped) sound_empty ran
  refine ⟨sound,told.replays,fun entry member => (told.entered entry member).1,told.listed,?_,?_,paid_perm told,?_,current_chained ran⟩
  · intro entry member
    obtain owes | ended | listed := told.owed entry member
    · exact .inr (.inl owes)
    · exact .inr (.inr ended)
    · exact .inl listed
  · intro entry member entered
    exact entered_listed told member entered
  · intro orderly paid
    rw [readBack_replay]
    exact (orderly_replays ran orderly paid).2

end Runs

-- A flag that is made, and rolled out further by another admin.
def betaFlag : CreateFeatureFlagRequest := { flag_name := "beta".toList, enabled := true, rollout_percentage := 10 }
def rolledOut : UpdateFeatureFlagRequest := { rollout_percentage := some 50 }

def betaRequests (second : Bool) : Request :=
  if second then .update "beta".toList rolledOut (by decide) ⟨"bob".toList,fun _ => none⟩
  else .create betaFlag (by decide) ⟨"ann".toList,fun _ => none⟩

def betaEvents : List (Event Bool Text) := [.read false,.change false [],.enter false,.read true,.change true [],.enter true]

theorem betaRequests_audited : ∃ s, run (step (system betaRequests)) (opened Db.empty) betaEvents = some s ∧ Sound s.store ∧
    s.log.Perm s.journal ∧ s.journal.length = 2 ∧ getFeatureFlag s.store = readBack (auditLogs betaRequests s) ∧
      Chained (s.journal.map Prod.snd) fun _ => none := by
  have finished : ∃ s, run (step (system betaRequests)) (opened Db.empty) betaEvents = some s ∧ s.journal.length = 2 ∧ Paid s := by
    refine ⟨_,rfl,rfl,?_⟩
    intro entry member
    rcases List.mem_cons.mp member with rfl | later
    · rfl
    · obtain rfl := List.mem_singleton.mp later
      rfl
  obtain ⟨s,ran,two,paid⟩ := finished
  obtain ⟨sound,-,-,-,-,-,all,back,chained⟩ := flags_audited betaRequests betaEvents ran
  refine ⟨s,ran,sound,all paid,two,back ?_ paid,chained ?_⟩
  · refine ⟨_,rfl,?_,_,rfl,?_,_,rfl,?_,_,rfl,?_,_,rfl,?_,_,rfl,?_,trivial⟩
    all_goals
      intro party given same
      cases same
    · rfl
    · rfl
  · refine ⟨_,rfl,?_,_,rfl,?_,_,rfl,?_,_,rfl,?_,_,rfl,?_,_,rfl,?_,trivial⟩
    all_goals
      intro party given seen store made same reads changed
      cases same
    · cases reads
      cases changed
      rfl
    · cases reads
      cases changed
      rfl

def betaTable : Db := ⟨⟨[⟨1,"beta".toList,true,30,[],[],[],none,[],[]⟩],List.nodup_singleton _⟩,1⟩

theorem beta_grows : evaluateFlag (updateFeatureFlag betaTable "beta".toList rolledOut []).1 "beta".toList ⟨none,some "u".toList⟩ = true := by
  refine rollout_grows betaTable "beta".toList rolledOut [] "beta".toList ⟨none,some "u".toList⟩ ⟨rfl,rfl,rfl⟩ ?_ ?_
  · intro flag percentage found raised
    cases found
    cases raised
    decide
  · decide

end AdblockCompiler.FeatureFlags
