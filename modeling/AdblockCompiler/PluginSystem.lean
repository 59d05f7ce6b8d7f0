import AdblockCompiler.JsText
import AdblockCompiler.KeyedRows
import AdblockCompiler.OutputFormatter
import AdblockCompiler.Schedules

namespace AdblockCompiler.Plugins
open JsText KeyedRows Formatters

-- What a plugin brings is code: functions, classes and hook objects that the
-- registry stores and hands on and never looks into.
section Definitions
variable (Code : Type)

structure TransformationPlugin where
  type : Text
  execute : Code

structure DownloaderPlugin where
  schemes : List Text
  download : Code

structure FormatterPlugin where
  format : Text
  formatterClass : Code

structure EventHookPlugin where
  name : Text
  hooks : Code

-- Validators, parsers, diff reporters, cache backends, header generators and
-- conflict resolvers.
structure NamedPlugin where
  name : Text
  code : Code

structure PluginManifest where
  name : Text
  dependencies : List Text := []

structure Plugin where
  manifest : PluginManifest
  transformations : List (TransformationPlugin Code) := []
  downloaders : List (DownloaderPlugin Code) := []
  formatters : List (FormatterPlugin Code) := []
  validators : List (NamedPlugin Code) := []
  parsers : List (NamedPlugin Code) := []
  diffReporters : List (NamedPlugin Code) := []
  cacheBackends : List (NamedPlugin Code) := []
  headerGenerators : List (NamedPlugin Code) := []
  conflictResolvers : List (NamedPlugin Code) := []
  eventHooks : List (EventHookPlugin Code) := []

end Definitions

-- The ten maps of the registry, in the order in which register goes through them.
inductive Kind where
  | transformations | downloaders | formatters | validators | parsers | diffReporters | cacheBackends | headerGenerators
  | conflictResolvers | eventHooks
  deriving DecidableEq, Repr

-- The text of the error for a key that is taken.
def Kind.taken (kind : Kind) (key : Text) : Thrown :=
  match kind with
  | .transformations => "Transformation \"".toList ++ key ++ "\" is already registered by another plugin".toList
  | .downloaders => "Downloader for scheme \"".toList ++ key ++ "\" is already registered".toList
  | .formatters => "Formatter for format \"".toList ++ key ++ "\" is already registered".toList
  | .validators => "Validator \"".toList ++ key ++ "\" is already registered".toList
  | .parsers => "Parser \"".toList ++ key ++ "\" is already registered".toList
  | .diffReporters => "Diff reporter \"".toList ++ key ++ "\" is already registered".toList
  | .cacheBackends => "Cache backend \"".toList ++ key ++ "\" is already registered".toList
  | .headerGenerators => "Header generator \"".toList ++ key ++ "\" is already registered".toList
  | .conflictResolvers => "Conflict resolver \"".toList ++ key ++ "\" is already registered".toList
  | .eventHooks => "Event hook \"".toList ++ key ++ "\" is already registered".toList

structure Slot (Code : Type) where
  kind : Kind
  key : Text
  code : Code

section Registry
variable {Code η : Type}

def NamedPlugin.slot (kind : Kind) (plugin : NamedPlugin Code) : Slot Code := ⟨kind,plugin.name,plugin.code⟩

def Plugin.name (plugin : Plugin Code) : Text := plugin.manifest.name

-- A downloader takes one key for each of its schemes.
def Plugin.slots (plugin : Plugin Code) : List (Slot Code) :=
  plugin.transformations.map (fun t => ⟨.transformations,t.type,t.execute⟩) ++
    plugin.downloaders.flatMap (fun d => d.schemes.map fun scheme => ⟨.downloaders,scheme,d.download⟩) ++
    plugin.formatters.map (fun f => ⟨.formatters,f.format,f.formatterClass⟩) ++
    plugin.validators.map (NamedPlugin.slot .validators) ++ plugin.parsers.map (NamedPlugin.slot .parsers) ++
    plugin.diffReporters.map (NamedPlugin.slot .diffReporters) ++ plugin.cacheBackends.map (NamedPlugin.slot .cacheBackends) ++
    plugin.headerGenerators.map (NamedPlugin.slot .headerGenerators) ++
    plugin.conflictResolvers.map (NamedPlugin.slot .conflictResolvers) ++
    plugin.eventHooks.map (fun eh => ⟨.eventHooks,eh.name,eh.hooks⟩)

-- What stands behind the bridge. A wrapper around a transformation is taken for
-- the code it runs; η is what the hook callbacks work on.
structure Subsystems (Code η : Type) where
  formatters : Entries Text Code
  transformations : Entries Text Code
  hooks : η

-- Which callbacks are given. Those for formatters and transformations set and
-- delete the entry of a map, as FormatterFactory and TransformationRegistry do.
structure SubsystemBridge (Code η : Type) where
  registerFormatter : Bool := false
  unregisterFormatter : Bool := false
  registerTransformation : Bool := false
  unregisterTransformation : Bool := false
  registerEventHooks : Option (Code → η → η) := none
  unregisterEventHooks : Option (Code → η → η) := none
  registerTransformationHooks : Option (Code → η → η) := none
  unregisterTransformationHooks : Option (Code → η → η) := none

-- An optional call.
def called (callback : Option (Code → η → η)) (code : Code) (hooks : η) : η :=
  match callback with
  | some callback => callback code hooks
  | none => hooks

structure PluginRegistry (Code η : Type) where
  plugins : Table (Plugin.name : Plugin Code → Text)
  maps : Kind → Entries Text Code
  subsystems : Subsystems Code η

section Steps
variable (bridge : SubsystemBridge Code η)

def SubsystemBridge.forward (slot : Slot Code) (behind : Subsystems Code η) : Subsystems Code η :=
  match slot.kind with
  | .transformations =>
    if bridge.registerTransformation then { behind with transformations := behind.transformations.set (slot.key,slot.code) } else behind
  | .formatters => if bridge.registerFormatter then { behind with formatters := behind.formatters.set (slot.key,slot.code) } else behind
  | .eventHooks =>
    { behind with
      hooks := called bridge.registerTransformationHooks slot.code (called bridge.registerEventHooks slot.code behind.hooks) }
  | _ => behind

def SubsystemBridge.withdraw (slot : Slot Code) (behind : Subsystems Code η) : Subsystems Code η :=
  match slot.kind with
  | .transformations =>
    if bridge.unregisterTransformation then { behind with transformations := behind.transformations.remove slot.key } else behind
  | .formatters => if bridge.unregisterFormatter then { behind with formatters := behind.formatters.remove slot.key } else behind
  | .eventHooks =>
    { behind with
      hooks := called bridge.unregisterTransformationHooks slot.code (called bridge.unregisterEventHooks slot.code behind.hooks) }
  | _ => behind

def PluginRegistry.dispatch (s : PluginRegistry Code η) (slot : Slot Code) : PluginRegistry Code η :=
  { s with
    maps := Function.update s.maps slot.kind ((s.maps slot.kind).set (slot.key,slot.code))
    subsystems := bridge.forward slot s.subsystems }

def PluginRegistry.removeSlot (s : PluginRegistry Code η) (slot : Slot Code) : PluginRegistry Code η :=
  { s with
    maps := Function.update s.maps slot.kind ((s.maps slot.kind).remove slot.key)
    subsystems := bridge.withdraw slot s.subsystems }

-- The loops of register over the slots: the first key that is taken ends them.
def PluginRegistry.dispatchSlots (s : PluginRegistry Code η) : List (Slot Code) → Option Thrown × PluginRegistry Code η
  | [] => (none,s)
  | slot :: rest =>
    if ((s.maps slot.kind).get slot.key).isSome then (some (slot.kind.taken slot.key),s) else dispatchSlots (s.dispatch bridge slot) rest

-- unregister takes a plugin's slots away in the same way.
def PluginRegistry.rollbackSubsystemEntries (s : PluginRegistry Code η) (plugin : Plugin Code) : PluginRegistry Code η :=
  plugin.slots.foldl (PluginRegistry.removeSlot bridge) s

def PluginRegistry.missing (s : PluginRegistry Code η) (plugin : Plugin Code) : List Text :=
  plugin.manifest.dependencies.filter fun dep => (s.plugins.find dep).isNone

-- init is what the plugin's init comes to, where it has one: it resolves, or it
-- throws, rejects or does not settle in time.
def PluginRegistry.register (s : PluginRegistry Code η) (plugin : Plugin Code) (init : Option (Except Thrown Unit)) :
    Except Thrown Unit × PluginRegistry Code η :=
  if (s.plugins.find plugin.name).isSome then
    (.error ("Plugin \"".toList ++ plugin.name ++ "\" is already registered".toList),s)
  else if s.missing plugin ≠ [] then
    (.error ("Plugin \"".toList ++ plugin.name ++ "\" has unmet dependencies: ".toList ++ [',',' '].intercalate (s.missing plugin)),s)
  else
    match s.dispatchSlots bridge plugin.slots with
    | (some thrown,after) => (.error thrown,after)
    | (none,after) =>
      match init with
      | some (.error thrown) => (.error thrown,after.rollbackSubsystemEntries bridge plugin)
      | _ => (.ok (),{ after with plugins := after.plugins.upsert plugin })

def PluginRegistry.unregister (s : PluginRegistry Code η) (name : Text) (cleanup : Option (Except Thrown Unit)) :
    Except Thrown Unit × PluginRegistry Code η :=
  match s.plugins.find name with
  | none => (.ok (),s)
  | some plugin =>
    match cleanup with
    | some (.error thrown) => (.error thrown,s)
    | _ =>
      let after := s.rollbackSubsystemEntries bridge plugin
      (.ok (),{ after with plugins := after.plugins.delete name fun _ => true })

-- Calls, each executed to its end before the next one.
inductive Event (Code : Type) where
  | register (plugin : Plugin Code) (init : Option (Except Thrown Unit))
  | unregister (name : Text) (cleanup : Option (Except Thrown Unit))

def PluginRegistry.answer (s : PluginRegistry Code η) : Event Code → Except Thrown Unit × PluginRegistry Code η
  | .register plugin init => s.register bridge plugin init
  | .unregister name cleanup => s.unregister bridge name cleanup

def step (s : PluginRegistry Code η) (event : Event Code) : Option (PluginRegistry Code η) := some (s.answer bridge event).2

def PluginRegistry.initial (behind : Subsystems Code η) : PluginRegistry Code η := ⟨⟨[],List.nodup_nil⟩,fun _ => Entries.empty,behind⟩

end Steps

end Registry

-- The slots of one kind, as the entries of its map.
section Spec
variable {Code η : Type} (bridge : SubsystemBridge Code η)

def Slot.place (slot : Slot Code) : Kind × Text := (slot.kind,slot.key)

def entriesOf (kind : Kind) (slots : List (Slot Code)) : List (Text × Code) :=
  slots.filterMap fun slot => if slot.kind = kind then some (slot.key,slot.code) else none

def keysOf (kind : Kind) (slots : List (Slot Code)) : List Text := (entriesOf kind slots).map Prod.fst

theorem entriesOf_cons (kind : Kind) (slot : Slot Code) (rest : List (Slot Code)) :
    entriesOf kind (slot :: rest) = if slot.kind = kind then (slot.key,slot.code) :: entriesOf kind rest else entriesOf kind rest := by
  unfold entriesOf
  rw [List.filterMap_cons]
  by_cases same : slot.kind = kind
  · rw [if_pos same,if_pos same]
  · rw [if_neg same,if_neg same]

theorem keysOf_cons (kind : Kind) (slot : Slot Code) (rest : List (Slot Code)) :
    keysOf kind (slot :: rest) = if slot.kind = kind then slot.key :: keysOf kind rest else keysOf kind rest := by
  rw [keysOf,entriesOf_cons]
  split <;> rfl

theorem mem_entriesOf {slots : List (Slot Code)} : (key,code) ∈ entriesOf kind slots ↔ (⟨kind,key,code⟩ : Slot Code) ∈ slots := by
  unfold entriesOf
  rw [List.mem_filterMap]
  constructor
  · rintro ⟨slot,member,found⟩
    split at found
    · rename_i same
      cases found
      exact same ▸ member
    · cases found
  · intro member
    exact ⟨_,member,if_pos rfl⟩

theorem keysOf_distinct {slots : List (Slot Code)} (distinct : (slots.map Slot.place).Nodup) (kind : Kind) : (keysOf kind slots).Nodup := by
  induction slots with
  | nil => exact List.nodup_nil
  | cons slot rest ih =>
    rw [List.map_cons,List.nodup_cons] at distinct
    rw [keysOf_cons]
    split
    · rename_i same
      rw [List.nodup_cons]
      refine ⟨?_,ih distinct.2⟩
      intro member
      obtain ⟨⟨key,code⟩,inside,equal⟩ := List.mem_map.mp member
      apply distinct.1
      refine List.mem_map.mpr ⟨_,mem_entriesOf.mp inside,?_⟩
      exact Prod.ext same.symm equal
    · exact ih distinct.2

variable (s : PluginRegistry Code η) (slots : List (Slot Code))

-- A loop that changes the map of each slot's kind takes every map through the
-- entries of its own kind.
theorem folded_maps (change : PluginRegistry Code η → Slot Code → PluginRegistry Code η)
    (act : Entries Text Code → Text × Code → Entries Text Code)
    (each : ∀ s slot, (change s slot).maps = Function.update s.maps slot.kind (act (s.maps slot.kind) (slot.key,slot.code))) (kind : Kind) :
    (slots.foldl change s).maps kind = (entriesOf kind slots).foldl act (s.maps kind) := by
  induction slots generalizing s with
  | nil => rfl
  | cons slot rest ih =>
    rw [List.foldl_cons,ih,entriesOf_cons,each]
    split
    · rename_i same
      subst same
      rw [Function.update_self,List.foldl_cons]
    · rename_i other
      rw [Function.update_of_ne (Ne.symm other)]

theorem dispatched_maps (kind : Kind) :
    (slots.foldl (PluginRegistry.dispatch bridge) s).maps kind = (s.maps kind).setAll (entriesOf kind slots) :=
  folded_maps s slots _ Entries.set (fun _ _ => rfl) kind

theorem removed_maps (kind : Kind) :
    (slots.foldl (PluginRegistry.removeSlot bridge) s).maps kind = (s.maps kind).removeAll (keysOf kind slots) := by
  rw [folded_maps s slots _ (fun m entry => m.remove entry.1) (fun _ _ => rfl) kind]
  exact List.foldl_map.symm

theorem dispatched_plugins : (slots.foldl (PluginRegistry.dispatch bridge) s).plugins = s.plugins := by
  induction slots generalizing s with
  | nil => rfl
  | cons slot rest ih => exact ih (s.dispatch bridge slot)

theorem removed_plugins : (slots.foldl (PluginRegistry.removeSlot bridge) s).plugins = s.plugins := by
  induction slots generalizing s with
  | nil => rfl
  | cons slot rest ih => exact ih (s.removeSlot bridge slot)

-- Behind the bridge, each callback sees the slots of its own kind.
def whenGiven (given : Bool) (change : α → α) (old : α) : α := if given then change old else old

def SubsystemBridge.addHooks (code : Code) (hooks : η) : η :=
  called bridge.registerTransformationHooks code (called bridge.registerEventHooks code hooks)

def SubsystemBridge.takeHooks (code : Code) (hooks : η) : η :=
  called bridge.unregisterTransformationHooks code (called bridge.unregisterEventHooks code hooks)

def hooksOf (slots : List (Slot Code)) : List Code := (entriesOf .eventHooks slots).map Prod.snd

def Subsystems.added (behind : Subsystems Code η) : Subsystems Code η where
  formatters := whenGiven bridge.registerFormatter (Entries.setAll · (entriesOf .formatters slots)) behind.formatters
  transformations := whenGiven bridge.registerTransformation (Entries.setAll · (entriesOf .transformations slots)) behind.transformations
  hooks := (hooksOf slots).foldl (fun hooks code => bridge.addHooks code hooks) behind.hooks

def Subsystems.taken (behind : Subsystems Code η) : Subsystems Code η where
  formatters := whenGiven bridge.unregisterFormatter (Entries.removeAll · (keysOf .formatters slots)) behind.formatters
  transformations := whenGiven bridge.unregisterTransformation (Entries.removeAll · (keysOf .transformations slots)) behind.transformations
  hooks := (hooksOf slots).foldl (fun hooks code => bridge.takeHooks code hooks) behind.hooks

theorem added_cons (slot : Slot Code) (behind : Subsystems Code η) :
    behind.added bridge (slot :: slots) = (bridge.forward slot behind).added bridge slots := by
  obtain ⟨kind,key,code⟩ := slot
  obtain ⟨formatters,transformations,hooks⟩ := behind
  simp only [Subsystems.added,hooksOf,entriesOf_cons]
  cases kind with
  | transformations =>
    cases given : bridge.registerTransformation <;> simp [SubsystemBridge.forward,given,whenGiven,Entries.setAll]
  | formatters => cases given : bridge.registerFormatter <;> simp [SubsystemBridge.forward,given,whenGiven,Entries.setAll]
  | _ => rfl

theorem taken_cons (slot : Slot Code) (behind : Subsystems Code η) :
    behind.taken bridge (slot :: slots) = (bridge.withdraw slot behind).taken bridge slots := by
  obtain ⟨kind,key,code⟩ := slot
  obtain ⟨formatters,transformations,hooks⟩ := behind
  simp only [Subsystems.taken,hooksOf,entriesOf_cons,keysOf_cons]
  cases kind with
  | transformations =>
    cases given : bridge.unregisterTransformation <;> simp [SubsystemBridge.withdraw,given,whenGiven,Entries.removeAll]
  | formatters => cases given : bridge.unregisterFormatter <;> simp [SubsystemBridge.withdraw,given,whenGiven,Entries.removeAll]
  | _ => rfl

theorem added_nil (behind : Subsystems Code η) : behind.added bridge [] = behind := by
  cases first : bridge.registerFormatter <;> cases second : bridge.registerTransformation <;>
    simp [Subsystems.added,hooksOf,entriesOf,whenGiven,first,second,Entries.setAll]

theorem taken_nil (behind : Subsystems Code η) : behind.taken bridge [] = behind := by
  cases first : bridge.unregisterFormatter <;> cases second : bridge.unregisterTransformation <;>
    simp [Subsystems.taken,hooksOf,entriesOf,keysOf,whenGiven,first,second,Entries.removeAll]

theorem dispatched_behind : (slots.foldl (PluginRegistry.dispatch bridge) s).subsystems = s.subsystems.added bridge slots := by
  induction slots generalizing s with
  | nil => exact (added_nil bridge s.subsystems).symm
  | cons slot rest ih => exact (ih (s.dispatch bridge slot)).trans (added_cons bridge rest slot s.subsystems).symm

theorem removed_behind : (slots.foldl (PluginRegistry.removeSlot bridge) s).subsystems = s.subsystems.taken bridge slots := by
  induction slots generalizing s with
  | nil => exact (taken_nil bridge s.subsystems).symm
  | cons slot rest ih => exact (ih (s.removeSlot bridge slot)).trans (taken_cons bridge rest slot s.subsystems).symm

-- The slots' keys are new to the maps and to one another.
structure Clear : Prop where
  fresh : ∀ slot ∈ slots, (s.maps slot.kind).get slot.key = none
  distinct : (slots.map Slot.place).Nodup

theorem clear_cons (slot : Slot Code) : Clear s (slot :: slots) ↔ (s.maps slot.kind).get slot.key = none ∧ Clear (s.dispatch bridge slot) slots := by
  have get (other : Slot Code) : ((s.dispatch bridge slot).maps other.kind).get other.key =
      if other.place = slot.place then some slot.code else (s.maps other.kind).get other.key := by
    obtain ⟨kind,key,code⟩ := other
    simp only [PluginRegistry.dispatch,Slot.place,Prod.mk.injEq]
    by_cases same : kind = slot.kind
    · subst same
      simp [Function.update_self,get_set]
    · simp [same]
  constructor
  · rintro ⟨fresh,distinct⟩
    rw [List.map_cons,List.nodup_cons] at distinct
    refine ⟨fresh slot List.mem_cons_self,⟨?_,distinct.2⟩⟩
    intro other member
    have apart : other.place ≠ slot.place := by
      intro same
      exact distinct.1 (same ▸ List.mem_map_of_mem member)
    rw [get,if_neg apart]
    exact fresh other (List.mem_cons_of_mem slot member)
  · rintro ⟨new,⟨fresh,distinct⟩⟩
    have apart : ∀ other ∈ slots, other.place ≠ slot.place := by
      intro other member same
      have absent := fresh other member
      rw [get,if_pos same] at absent
      cases absent
    refine ⟨?_,?_⟩
    · intro other member
      rcases List.mem_cons.mp member with rfl | later
      · exact new
      · have absent := fresh other later
        rwa [get,if_neg (apart other later)] at absent
    · rw [List.map_cons,List.nodup_cons]
      refine ⟨?_,distinct⟩
      intro member
      obtain ⟨other,inside,same⟩ := List.mem_map.mp member
      exact apart other inside same

-- How the loops over the slots end: through all of them, or at one whose key is
-- taken, with what came before it left in place.
theorem dispatchSlots_cases :
    (Clear s slots ∧ s.dispatchSlots bridge slots = (none,slots.foldl (PluginRegistry.dispatch bridge) s)) ∨
      ∃ done slot rest, slots = done ++ slot :: rest ∧ ¬Clear s slots ∧ Clear s done ∧
        (((done.foldl (PluginRegistry.dispatch bridge) s).maps slot.kind).get slot.key).isSome = true ∧
        s.dispatchSlots bridge slots = (some (slot.kind.taken slot.key),done.foldl (PluginRegistry.dispatch bridge) s) := by
  induction slots generalizing s with
  | nil => exact .inl ⟨⟨fun slot member => absurd member List.not_mem_nil,List.nodup_nil⟩,rfl⟩
  | cons slot rest ih =>
    unfold PluginRegistry.dispatchSlots
    cases found : (s.maps slot.kind).get slot.key with
    | some code =>
      refine .inr ⟨[],slot,rest,rfl,?_,⟨fun slot member => absurd member List.not_mem_nil,List.nodup_nil⟩,by simp [found],rfl⟩
      intro clear
      have absent := clear.fresh slot List.mem_cons_self
      rw [found] at absent
      cases absent
    | none =>
      rw [if_neg (by simp)]
      rcases ih (s.dispatch bridge slot) with ⟨clear,ran⟩ | ⟨done,last,more,rfl,unclear,clear,taken,ran⟩
      · exact .inl ⟨(clear_cons bridge s rest slot).mpr ⟨found,clear⟩,ran⟩
      · refine .inr ⟨slot :: done,last,more,rfl,?_,(clear_cons bridge s done slot).mpr ⟨found,clear⟩,taken,ran⟩
        intro whole
        exact unclear ((clear_cons bridge s _ slot).mp whole).2

end Spec

section Atomicity
variable {Code η : Type} (bridge : SubsystemBridge Code η)

-- Every way a register call can go.
inductive Registers (s : PluginRegistry Code η) (plugin : Plugin Code) (init : Option (Except Thrown Unit)) :
    Except Thrown Unit × PluginRegistry Code η → Prop where
  | refused (thrown : Thrown) (unfit : (s.plugins.find plugin.name).isSome = true ∨ s.missing plugin ≠ []) :
      Registers s plugin init (.error thrown,s)
  | conflict (new : s.plugins.find plugin.name = none) (met : s.missing plugin = []) (parts : plugin.slots = done ++ slot :: rest)
      (unclear : ¬Clear s plugin.slots) (clear : Clear s done)
      (taken : (((done.foldl (PluginRegistry.dispatch bridge) s).maps slot.kind).get slot.key).isSome = true) :
      Registers s plugin init (.error (slot.kind.taken slot.key),done.foldl (PluginRegistry.dispatch bridge) s)
  | failed (new : s.plugins.find plugin.name = none) (met : s.missing plugin = []) (clear : Clear s plugin.slots)
      (outcome : init = some (.error thrown)) :
      Registers s plugin init
        (.error thrown,(plugin.slots.foldl (PluginRegistry.dispatch bridge) s).rollbackSubsystemEntries bridge plugin)
  | registered (new : s.plugins.find plugin.name = none) (met : s.missing plugin = []) (clear : Clear s plugin.slots)
      (fine : ∀ thrown, init ≠ some (.error thrown)) :
      Registers s plugin init
        (.ok (),{ plugin.slots.foldl (PluginRegistry.dispatch bridge) s with plugins := s.plugins.upsert plugin })

theorem register_change (s : PluginRegistry Code η) (plugin : Plugin Code) (init : Option (Except Thrown Unit)) :
    Registers bridge s plugin init (s.register bridge plugin init) := by
  unfold PluginRegistry.register
  split
  · rename_i known
    exact .refused _ (.inl known)
  · rename_i unknown
    have new : s.plugins.find plugin.name = none := by simpa using unknown
    split
    · rename_i unmet
      exact .refused _ (.inr unmet)
    · rename_i all
      have met : s.missing plugin = [] := by simpa using all
      rcases dispatchSlots_cases bridge s plugin.slots with ⟨clear,ran⟩ | ⟨done,slot,rest,parts,unclear,clear,taken,ran⟩
      · rw [ran]
        dsimp only
        split
        · exact .failed new met clear rfl
        · rename_i fine
          rw [dispatched_plugins]
          exact .registered new met clear fine
      · rw [ran]
        exact .conflict new met parts unclear clear taken

-- The maps hold the slots of the plugins that are registered, and no others.
def Exactly (s : PluginRegistry Code η) : Prop :=
  ∀ kind key code, (s.maps kind).get key = some code ↔ ∃ plugin ∈ s.plugins.rows, (⟨kind,key,code⟩ : Slot Code) ∈ plugin.slots

-- No two registered plugins have a key in common.
def Apart (s : PluginRegistry Code η) : Prop :=
  ∀ one ∈ s.plugins.rows, ∀ other ∈ s.plugins.rows, ∀ a ∈ one.slots, ∀ b ∈ other.slots, a.place = b.place → one = other

theorem clear_dispatched (s : PluginRegistry Code η) (clear : Clear s slots) (kind : Kind) (key : Text) (code : Code) :
    ((slots.foldl (PluginRegistry.dispatch bridge) s).maps kind).get key = some code ↔
      (s.maps kind).get key = some code ∨ (⟨kind,key,code⟩ : Slot Code) ∈ slots := by
  rw [dispatched_maps]
  by_cases inside : key ∈ keysOf kind slots
  · obtain ⟨⟨_,held⟩,member,rfl⟩ := List.mem_map.mp inside
    rw [get_setAll _ _ (keysOf_distinct clear.distinct kind) member]
    have absent := clear.fresh _ (mem_entriesOf.mp member)
    simp only [absent,reduceCtorEq,false_or,Option.some.injEq]
    rw [← mem_entriesOf]
    constructor
    · rintro rfl
      exact member
    · intro other
      have same := get_setAll (s.maps kind) _ (keysOf_distinct clear.distinct kind) other
      rw [get_setAll _ _ (keysOf_distinct clear.distinct kind) member] at same
      exact Option.some.inj same
  · rw [get_setAll_other _ _ inside]
    constructor
    · exact .inl
    · rintro (old | member)
      · exact old
      · exact absurd (List.mem_map_of_mem (mem_entriesOf.mpr member)) inside

-- Taking away again what was dispatched leaves the maps as they were.
theorem clear_restored (s : PluginRegistry Code η) (clear : Clear s slots) (kind : Kind) :
    ((slots.foldl (PluginRegistry.removeSlot bridge) (slots.foldl (PluginRegistry.dispatch bridge) s)).maps kind) = s.maps kind := by
  rw [removed_maps,dispatched_maps,keysOf,removeAll_setAll,removeAll_exact]
  intro key member
  obtain ⟨⟨_,code⟩,inside,rfl⟩ := List.mem_map.mp member
  exact clear.fresh _ (mem_entriesOf.mp inside)

theorem rows_upsert (s : PluginRegistry Code η) {plugin : Plugin Code} (new : s.plugins.find plugin.name = none) :
    (s.plugins.upsert plugin).rows = s.plugins.rows ++ [plugin] := by
  unfold Table.upsert
  rw [dif_pos new]
  rfl

theorem exactly_registered (s : PluginRegistry Code η) (plugin : Plugin Code) (exactly : Exactly s) (new : s.plugins.find plugin.name = none)
    (clear : Clear s plugin.slots) :
    Exactly { plugin.slots.foldl (PluginRegistry.dispatch bridge) s with plugins := s.plugins.upsert plugin } := by
  intro kind key code
  simp only [rows_upsert s new]
  rw [clear_dispatched bridge s clear,exactly]
  simp [or_and_right,exists_or]

theorem apart_registered (s : PluginRegistry Code η) (plugin : Plugin Code) (exactly : Exactly s) (apart : Apart s) (new : s.plugins.find plugin.name = none)
    (clear : Clear s plugin.slots) (maps : Kind → Entries Text Code) (behind : Subsystems Code η) :
    Apart ⟨s.plugins.upsert plugin,maps,behind⟩ := by
  have fresh : ∀ other ∈ s.plugins.rows, ∀ a ∈ other.slots, ∀ b ∈ plugin.slots, a.place ≠ b.place := by
    intro other held a inside b own same
    obtain ⟨kind,key,code⟩ := a
    have taken := (exactly kind key code).mpr ⟨other,held,inside⟩
    have absent := clear.fresh b own
    have kinds : kind = b.kind := congrArg Prod.fst same
    have keys : key = b.key := congrArg Prod.snd same
    rw [kinds,keys,absent] at taken
    cases taken
  intro one first other second a inA b inB same
  rw [rows_upsert s new] at first second
  rcases List.mem_append.mp first with old | last
  · rcases List.mem_append.mp second with older | last
    · exact apart one old other older a inA b inB same
    · cases List.mem_singleton.mp last
      exact absurd same (fresh one old a inA b inB)
  · cases List.mem_singleton.mp last
    rcases List.mem_append.mp second with older | last
    · exact absurd same.symm (fresh other older b inB a inA)
    · exact (List.mem_singleton.mp last).symm

theorem exactly_unregistered (s : PluginRegistry Code η) (plugin : Plugin Code) (exactly : Exactly s) (apart : Apart s)
    (held : plugin ∈ s.plugins.rows) :
    Exactly { s.rollbackSubsystemEntries bridge plugin with plugins := s.plugins.delete plugin.name fun _ => true } := by
  intro kind key code
  simp only [PluginRegistry.rollbackSubsystemEntries,removed_maps,get_removeAll,Table.delete,List.mem_filter,Bool.and_true,
    Bool.not_eq_true',decide_eq_false_iff_not]
  constructor
  · intro found
    split at found
    · cases found
    · rename_i outside
      obtain ⟨other,inside,member⟩ := (exactly kind key code).mp found
      refine ⟨other,⟨inside,?_⟩,member⟩
      intro same
      rw [s.plugins.same inside held same] at member
      exact outside (List.mem_map_of_mem (mem_entriesOf.mpr member))
  · rintro ⟨other,⟨inside,differs⟩,member⟩
    have outside : key ∉ keysOf kind plugin.slots := by
      intro listed
      obtain ⟨⟨_,own⟩,entry,rfl⟩ := List.mem_map.mp listed
      exact differs (congrArg Plugin.name (apart other inside plugin held _ member _ (mem_entriesOf.mp entry) rfl))
    rw [if_neg outside]
    exact (exactly kind key code).mpr ⟨other,inside,member⟩

theorem apart_fewer (s t : PluginRegistry Code η) (apart : Apart s) (fewer : ∀ plugin ∈ t.plugins.rows, plugin ∈ s.plugins.rows) :
    Apart t := fun one first other second => apart one (fewer one first) other (fewer other second)

theorem registry_ext {s t : PluginRegistry Code η} (plugins : s.plugins = t.plugins) (maps : ∀ kind, s.maps kind = t.maps kind)
    (behind : s.subsystems = t.subsystems) : s = t := by
  obtain ⟨plugins_s,maps_s,behind_s⟩ := s
  obtain ⟨plugins_t,maps_t,behind_t⟩ := t
  obtain rfl : maps_s = maps_t := funext maps
  cases plugins
  cases behind
  rfl

-- Setting an entry and taking it back leaves a map as it was: nothing stood
-- under its key or, where it is not taken back, the same did.
def Undone (given taken : Bool) (m : Entries Text Code) (entry : Text × Code) : Prop :=
  if taken then m.get entry.1 = none else given = true → m.get entry.1 = some entry.2

theorem undone_exact (given taken : Bool) (m : Entries Text Code) (entries : List (Text × Code)) (distinct : (entries.map Prod.fst).Nodup) :
    whenGiven taken (Entries.removeAll · (entries.map Prod.fst)) (whenGiven given (Entries.setAll · entries) m) = m ↔
      ∀ entry ∈ entries, Undone given taken m entry := by
  cases taken with
  | true =>
    have whole : (whenGiven given (Entries.setAll · entries) m).removeAll (entries.map Prod.fst) = m.removeAll (entries.map Prod.fst) := by
      cases given with
      | true => exact removeAll_setAll m entries
      | false => rfl
    simp only [Undone,whenGiven,if_true] at whole ⊢
    rw [whole,removeAll_exact,List.forall_mem_map]
  | false =>
    cases given with
    | true => simpa [Undone,whenGiven] using setAll_exact m entries distinct
    | false => simp [Undone,whenGiven]

-- What stands behind the bridge is as before once a plugin's slots are handed
-- on and taken back.
structure Restorable (plugin : Plugin Code) (behind : Subsystems Code η) : Prop where
  formatters : ∀ f ∈ plugin.formatters,
    Undone bridge.registerFormatter bridge.unregisterFormatter behind.formatters (f.format,f.formatterClass)
  transformations : ∀ t ∈ plugin.transformations,
    Undone bridge.registerTransformation bridge.unregisterTransformation behind.transformations (t.type,t.execute)
  hooks : (plugin.eventHooks.map EventHookPlugin.hooks).foldl (fun hooks code => bridge.takeHooks code hooks)
    ((plugin.eventHooks.map EventHookPlugin.hooks).foldl (fun hooks code => bridge.addHooks code hooks) behind.hooks) = behind.hooks

theorem plugin_entries (plugin : Plugin Code) :
    entriesOf .formatters plugin.slots = plugin.formatters.map (fun f => (f.format,f.formatterClass)) ∧
    entriesOf .transformations plugin.slots = plugin.transformations.map (fun t => (t.type,t.execute)) ∧
    hooksOf plugin.slots = plugin.eventHooks.map EventHookPlugin.hooks := by
  refine ⟨?_,?_,?_⟩
  · simp [entriesOf,Plugin.slots,NamedPlugin.slot,List.filterMap_flatMap]
  · simp [entriesOf,Plugin.slots,NamedPlugin.slot,List.filterMap_flatMap]
  · simp [hooksOf,entriesOf,Plugin.slots,NamedPlugin.slot,Function.comp_def,List.filterMap_flatMap]

theorem restorable_exact (plugin : Plugin Code) (distinct : (plugin.slots.map Slot.place).Nodup) (behind : Subsystems Code η) :
    (behind.added bridge plugin.slots).taken bridge plugin.slots = behind ↔ Restorable bridge plugin behind := by
  obtain ⟨ofFormatters,ofTransformations,ofHooks⟩ := plugin_entries plugin
  have formatters := undone_exact bridge.registerFormatter bridge.unregisterFormatter behind.formatters _
    (keysOf_distinct distinct .formatters)
  have transformations := undone_exact bridge.registerTransformation bridge.unregisterTransformation behind.transformations _
    (keysOf_distinct distinct .transformations)
  have parts (one other : Subsystems Code η) :
      one = other ↔ one.formatters = other.formatters ∧ one.transformations = other.transformations ∧ one.hooks = other.hooks := by
    cases one
    cases other
    simp
  rw [parts]
  simp only [Subsystems.added,Subsystems.taken,keysOf,formatters,transformations]
  rw [ofFormatters,ofTransformations,ofHooks,List.forall_mem_map,List.forall_mem_map]
  constructor
  · rintro ⟨first,second,third⟩
    exact ⟨first,second,third⟩
  · rintro ⟨first,second,third⟩
    exact ⟨first,second,third⟩

-- What the claimed atomicity asks of a step: the maps are right afterwards, and
-- a call of register that rejects has changed nothing.
def Atomic (s : PluginRegistry Code η) (event : Event Code) (next : PluginRegistry Code η) : Prop :=
  Exactly next ∧
    match event with
    | .register plugin init => ∀ thrown, (s.register bridge plugin init).1 = .error thrown → next = s
    | .unregister _ _ => True

-- The calls of register that keep it: those refused before the slots are looked
-- at, those whose very first slot is taken, and those whose slots are all free
-- and, where init fails, can be taken back behind the bridge.
def Admits (s : PluginRegistry Code η) : Event Code → Prop
  | .register plugin init =>
    (s.plugins.find plugin.name).isSome = true ∨ s.missing plugin ≠ [] ∨
      (∃ slot rest, plugin.slots = slot :: rest ∧ ((s.maps slot.kind).get slot.key).isSome = true) ∨
      (Clear s plugin.slots ∧ ∀ thrown, init = some (.error thrown) → Restorable bridge plugin s.subsystems)
  | .unregister _ _ => True

structure Sound (s : PluginRegistry Code η) : Prop where
  exactly : Exactly s
  apart : Apart s

theorem failed_unchanged (s : PluginRegistry Code η) (plugin : Plugin Code) (clear : Clear s plugin.slots) :
    (plugin.slots.foldl (PluginRegistry.dispatch bridge) s).rollbackSubsystemEntries bridge plugin = s ↔
      Restorable bridge plugin s.subsystems := by
  have behind : ((plugin.slots.foldl (PluginRegistry.dispatch bridge) s).rollbackSubsystemEntries bridge plugin).subsystems =
      (s.subsystems.added bridge plugin.slots).taken bridge plugin.slots := by
    rw [PluginRegistry.rollbackSubsystemEntries,removed_behind,dispatched_behind]
  rw [← restorable_exact bridge plugin clear.distinct s.subsystems]
  constructor
  · intro same
    rw [← behind,same]
  · intro same
    refine registry_ext ?_ (clear_restored bridge s clear) (behind.trans same)
    rw [PluginRegistry.rollbackSubsystemEntries,removed_plugins,dispatched_plugins]

-- A slot that went in before the conflict shows.
theorem conflict_unchanged (s : PluginRegistry Code η) (clear : Clear s done) : done.foldl (PluginRegistry.dispatch bridge) s = s ↔ done = [] := by
  constructor
  · intro same
    cases done with
    | nil => rfl
    | cons slot rest =>
      have held := (clear_dispatched bridge s clear slot.kind slot.key slot.code).mpr (.inr List.mem_cons_self)
      rw [same,clear.fresh slot List.mem_cons_self] at held
      cases held
  · rintro rfl
    rfl

theorem register_exact (s : PluginRegistry Code η) (sound : Sound s) (plugin : Plugin Code) (init : Option (Except Thrown Unit)) :
    Atomic bridge s (.register plugin init) (s.register bridge plugin init).2 ↔ Admits bridge s (.register plugin init) := by
  have change := register_change bridge s plugin init
  unfold Atomic Admits
  dsimp only
  generalize s.register bridge plugin init = outcome at change ⊢
  cases change with
  | refused thrown unfit =>
    refine ⟨fun _ => ?_,fun _ => ⟨sound.exactly,fun _ _ => rfl⟩⟩
    rcases unfit with known | unmet
    · exact .inl known
    · exact .inr (.inl unmet)
  | @conflict done slot rest new met parts unclear clear taken =>
    have kept : (Exactly (done.foldl (PluginRegistry.dispatch bridge) s) ∧ ∀ thrown,
        (Except.error (slot.kind.taken slot.key) : Except Thrown Unit) = .error thrown → done.foldl (PluginRegistry.dispatch bridge) s = s) ↔ done = [] := by
      rw [← conflict_unchanged bridge s clear]
      constructor
      · rintro ⟨-,same⟩
        exact same _ rfl
      · intro same
        rw [same]
        exact ⟨sound.exactly,fun _ _ => rfl⟩
    rw [kept,new,met,parts]
    constructor
    · rintro rfl
      exact .inr (.inr (.inl ⟨slot,rest,rfl,taken⟩))
    · rintro (known | unmet | ⟨first,others,same,held⟩ | ⟨whole,-⟩)
      · cases known
      · exact absurd rfl unmet
      · cases done with
        | nil => rfl
        | cons d done =>
          rw [← (List.cons.inj same).1,clear.fresh d List.mem_cons_self] at held
          cases held
      · exact absurd (parts ▸ whole) unclear
  | @failed thrown new met clear outcome =>
    have kept := failed_unchanged bridge s plugin clear
    constructor
    · rintro ⟨-,same⟩
      exact .inr (.inr (.inr ⟨clear,fun _ _ => kept.mp (same _ rfl)⟩))
    · rintro (known | unmet | ⟨first,others,parts,taken⟩ | ⟨-,restorable⟩)
      · rw [new] at known
        cases known
      · exact absurd met unmet
      · rw [clear.fresh first (parts ▸ List.mem_cons_self)] at taken
        cases taken
      · have same := kept.mpr (restorable thrown outcome)
        exact ⟨same.symm ▸ sound.exactly,fun _ _ => same⟩
  | registered new met clear fine =>
    constructor
    · intro _
      exact .inr (.inr (.inr ⟨clear,fun thrown outcome => absurd outcome (fine thrown)⟩))
    · intro _
      exact ⟨exactly_registered bridge s plugin sound.exactly new clear,fun thrown same => by cases same⟩

theorem unregister_sound (s : PluginRegistry Code η) (sound : Sound s) (name : Text) (cleanup : Option (Except Thrown Unit)) :
    Sound (s.unregister bridge name cleanup).2 := by
  unfold PluginRegistry.unregister
  split
  · exact sound
  · rename_i plugin found
    obtain ⟨held,rfl⟩ := find_exact.mp found
    split
    · exact sound
    · have kept : (s.rollbackSubsystemEntries bridge plugin).plugins = s.plugins := removed_plugins bridge s plugin.slots
      dsimp only
      rw [kept]
      refine ⟨exactly_unregistered bridge s plugin sound.exactly sound.apart held,?_⟩
      apply apart_fewer s _ sound.apart
      intro other left
      exact List.mem_of_mem_filter left

-- A call that keeps the atomicity keeps what the next one starts from.
theorem sound_register (s : PluginRegistry Code η) (sound : Sound s) (plugin : Plugin Code) (init : Option (Except Thrown Unit))
    (atomic : Atomic bridge s (.register plugin init) (s.register bridge plugin init).2) : Sound (s.register bridge plugin init).2 := by
  have change := register_change bridge s plugin init
  obtain ⟨exactly,unchanged⟩ := atomic
  refine ⟨exactly,?_⟩
  dsimp only at unchanged
  generalize s.register bridge plugin init = outcome at change unchanged ⊢
  cases change with
  | refused thrown unfit => exact sound.apart
  | conflict new met parts unclear clear taken =>
    rw [unchanged _ rfl]
    exact sound.apart
  | failed new met clear outcome =>
    rw [unchanged _ rfl]
    exact sound.apart
  | registered new met clear fine => exact apart_registered s plugin sound.exactly sound.apart new clear _ _

theorem initial_sound (behind : Subsystems Code η) : Sound (PluginRegistry.initial behind) := by
  constructor
  · intro kind key code
    simp [PluginRegistry.initial,Entries.get,Entries.empty,Table.find]
  · intro one held
    cases held

theorem atomic_step (s : PluginRegistry Code η) (event : Event Code) (next : PluginRegistry Code η) (sound : Sound s)
    (stepped : step bridge s event = some next) : Atomic bridge s event next ↔ Admits bridge s event := by
  obtain rfl := Option.some.inj stepped
  cases event with
  | register plugin init => exact register_exact bridge s sound plugin init
  | unregister name cleanup => exact ⟨fun _ => trivial,fun _ => ⟨(unregister_sound bridge s sound name cleanup).exactly,trivial⟩⟩

theorem sound_step (s : PluginRegistry Code η) (event : Event Code) (next : PluginRegistry Code η) (sound : Sound s)
    (stepped : step bridge s event = some next) (atomic : Atomic bridge s event next) : Sound next := by
  obtain rfl := Option.some.inj stepped
  cases event with
  | register plugin init => exact sound_register bridge s sound plugin init atomic
  | unregister name cleanup => exact unregister_sound bridge s sound name cleanup

theorem registration_atomic_exact (behind : Subsystems Code η) (events : List (Event Code)) :
    Schedules.Along (step bridge) (Atomic bridge) (PluginRegistry.initial behind) events ↔
      Schedules.Along (step bridge) (fun s event _ => Admits bridge s event) (PluginRegistry.initial behind) events :=
  Schedules.along_exact Sound (sound_step bridge) (atomic_step bridge) (initial_sound behind)

end Atomicity

-- Two plugins with a validator of one name: the second is rejected and the
-- validator it brought before that one stays.
def firstPlugin : Plugin Nat := { manifest := { name := ['a'] }, validators := [⟨['v'],1⟩] }
def secondPlugin : Plugin Nat := { manifest := { name := ['b'] }, validators := [⟨['w'],2⟩,⟨['v'],3⟩] }

theorem rejected_slot_left : ¬Schedules.Along (step {}) (Atomic {}) (PluginRegistry.initial (⟨.empty,.empty,()⟩ : Subsystems Nat Unit))
    [.register firstPlugin none,.register secondPlugin none] := by
  rintro ⟨one,registered,-,two,rejected,⟨-,unchanged⟩,-⟩
  obtain rfl := Option.some.inj registered
  obtain rfl := Option.some.inj rejected
  have same := congrArg (fun s : PluginRegistry Nat Unit => (s.maps .validators).get ['w']) (unchanged _ rfl)
  cases same

-- FormatterFactory with its built-in formatters; create falls back on a default.
def defaultFormat : Text := OutputFormat.Adblock.text

def initialFormatters (builtIn : OutputFormat → Code) : Entries Text Code :=
  [.Hosts,.Dnsmasq,.PiHole,.Unbound,.JSON,.DoH,.Adblock].foldl (fun m format => m.set (format.text,builtIn format)) .empty

def create (formatters : Entries Text Code) (format : Text) : Except Thrown Code :=
  match (formatters.get format).or (formatters.get defaultFormat) with
  | some formatterClass => .ok formatterClass
  | none => .error ("Unknown format: ".toList ++ format ++ " and no default formatter registered".toList)

section Frame
variable {Code η : Type} (bridge : SubsystemBridge Code η)

theorem create_alike {one other : Entries Text Code} : create one format = create other format ↔
    (one.get format).or (one.get defaultFormat) = (other.get format).or (other.get defaultFormat) := by
  constructor
  · intro same
    unfold create at same
    cases first : (one.get format).or (one.get defaultFormat) <;> cases second : (other.get format).or (other.get defaultFormat) <;>
      simp_all
  · intro same
    rw [create,create,same]

-- What the formats and types look up is the same after a change of the two maps.
def Restores (before after : Subsystems Code η) : Prop :=
  (∀ format, create after.formatters format = create before.formatters format) ∧
    ∀ type, after.transformations.get type = before.transformations.get type

-- Handed on and taken back, a formatter hides the entry its format had; handed
-- on alone, it is what its format yields.
def Unseen (given taken : Bool) (m : Entries Text Code) (entry : Text × Code) : Prop :=
  if taken then m.get entry.1 = none ∨ (entry.1 ≠ defaultFormat ∧ m.get entry.1 = m.get defaultFormat)
  else given = true → (m.get entry.1).or (m.get defaultFormat) = some entry.2

theorem get_taken (given : Bool) (m : Entries Text Code) (entries : List (Text × Code)) (k : Text) :
    ((whenGiven given (Entries.setAll · entries) m).removeAll (entries.map Prod.fst)).get k =
      if k ∈ entries.map Prod.fst then none else m.get k := by
  rw [get_removeAll]
  split
  · rfl
  · rename_i outside
    cases given with
    | true => exact get_setAll_other m entries outside
    | false => rfl

theorem removed_unseen (m after : Entries Text Code) (keys : List Text) (removed : ∀ k, after.get k = if k ∈ keys then none else m.get k) :
    (∀ format, create after format = create m format) ↔
      ∀ k ∈ keys, m.get k = none ∨ (k ≠ defaultFormat ∧ m.get k = m.get defaultFormat) := by
  simp only [create_alike,removed]
  constructor
  · intro same k listed
    have here := same k
    rw [if_pos listed,Option.none_or] at here
    by_cases fallback : k = defaultFormat
    · rw [fallback] at here listed ⊢
      rw [if_pos listed,Option.or_self] at here
      exact .inl here.symm
    · cases held : m.get k with
      | none => exact .inl rfl
      | some code =>
        rw [held,Option.some_or] at here
        split at here
        · cases here
        · exact .inr ⟨fallback,here.symm⟩
  · intro free format
    have fallback : (if defaultFormat ∈ keys then none else m.get defaultFormat) = m.get defaultFormat := by
      split
      · rename_i listed
        rcases free defaultFormat listed with absent | ⟨other,-⟩
        · exact absent.symm
        · exact absurd rfl other
      · rfl
    rw [fallback]
    split
    · rename_i listed
      rcases free format listed with absent | ⟨-,same⟩
      · rw [absent]
      · rw [same,Option.none_or,Option.or_self]
    · rfl

theorem given_unseen (m : Entries Text Code) (entries : List (Text × Code)) (distinct : (entries.map Prod.fst).Nodup) :
    (∀ format, create (m.setAll entries) format = create m format) ↔
      ∀ entry ∈ entries, (m.get entry.1).or (m.get defaultFormat) = some entry.2 := by
  simp only [create_alike]
  constructor
  · rintro same ⟨k,code⟩ member
    have here := same k
    rw [get_setAll m entries distinct member,Option.some_or] at here
    exact here.symm
  · intro shown format
    have fallback : (m.setAll entries).get defaultFormat = m.get defaultFormat := by
      by_cases listed : defaultFormat ∈ entries.map Prod.fst
      · obtain ⟨⟨_,code⟩,member,rfl⟩ := List.mem_map.mp listed
        have here := shown _ member
        rw [Option.or_self] at here
        rw [get_setAll m entries distinct member,here]
      · exact get_setAll_other m entries listed
    by_cases listed : format ∈ entries.map Prod.fst
    · obtain ⟨⟨_,code⟩,member,rfl⟩ := List.mem_map.mp listed
      rw [get_setAll m entries distinct member,shown _ member]
      rfl
    · rw [get_setAll_other m entries listed,fallback]

theorem formatters_exact (given taken : Bool) (m : Entries Text Code) (entries : List (Text × Code)) (distinct : (entries.map Prod.fst).Nodup) :
    (∀ format, create (whenGiven taken (Entries.removeAll · (entries.map Prod.fst)) (whenGiven given (Entries.setAll · entries) m))
        format = create m format) ↔
      ∀ entry ∈ entries, Unseen given taken m entry := by
  cases taken with
  | true =>
    have exact := removed_unseen m _ _ (get_taken given m entries)
    simp only [whenGiven,Unseen,if_true]
    rw [← List.forall_mem_map (P := fun k => m.get k = none ∨ (k ≠ defaultFormat ∧ m.get k = m.get defaultFormat))]
    exact exact
  | false =>
    cases given with
    | true => simpa [whenGiven,Unseen] using given_unseen m entries distinct
    | false => simp [whenGiven,Unseen]

theorem lookups_exact (given taken : Bool) (m : Entries Text Code) (entries : List (Text × Code)) (distinct : (entries.map Prod.fst).Nodup) :
    (∀ type, (whenGiven taken (Entries.removeAll · (entries.map Prod.fst)) (whenGiven given (Entries.setAll · entries) m)).get type =
        m.get type) ↔ ∀ entry ∈ entries, Undone given taken m entry := by
  cases taken with
  | true =>
    have removed := get_taken given m entries
    simp only [whenGiven] at removed
    simp only [whenGiven,Undone,if_true,removed]
    rw [← List.forall_mem_map (P := fun k => m.get k = none)]
    constructor
    · intro same k listed
      rw [← same k,if_pos listed]
    · intro absent type
      split
      · rename_i listed
        exact (absent type listed).symm
      · rfl
  | false =>
    cases given with
    | true =>
      simp only [whenGiven,Undone,if_true,forall_const,Bool.false_eq_true,if_false]
      constructor
      · rintro same ⟨k,code⟩ member
        rw [← same k,get_setAll m entries distinct member]
      · intro held type
        rw [(setAll_exact m entries distinct).mpr held]
    | false => simp [whenGiven,Undone]

-- What unregister leaves behind the bridge once the plugin was registered: where
-- its cleanup rejects, nothing is taken back.
def cleaned : Option (Except Thrown Unit) → Bool
  | some (.error _) => false
  | _ => true

theorem unregistered_behind (s : PluginRegistry Code η) (plugin : Plugin Code) (cleanup : Option (Except Thrown Unit))
    (found : s.plugins.find plugin.name = some plugin) :
    (s.unregister bridge plugin.name cleanup).2.subsystems = whenGiven (cleaned cleanup) (Subsystems.taken bridge plugin.slots) s.subsystems := by
  unfold PluginRegistry.unregister
  rw [found]
  rcases cleanup with - | (thrown | -)
  · exact removed_behind bridge s plugin.slots
  · rfl
  · exact removed_behind bridge s plugin.slots

theorem whenGiven_and (one two : Bool) (change : α → α) (old : α) :
    whenGiven (one && two) change old = whenGiven two (whenGiven one change) old := by
  cases one <;> cases two <;> rfl

theorem registered_then (s : PluginRegistry Code η) (plugin : Plugin Code) (init : Option (Except Thrown Unit))
    (done : (s.register bridge plugin init).1 = .ok ()) :
    (plugin.slots.map Slot.place).Nodup ∧ (s.register bridge plugin init).2.plugins.find plugin.name = some plugin ∧
      (s.register bridge plugin init).2.subsystems = s.subsystems.added bridge plugin.slots := by
  have change := register_change bridge s plugin init
  generalize s.register bridge plugin init = outcome at change done ⊢
  cases change with
  | refused thrown unfit => cases done
  | conflict new met parts unclear clear taken => cases done
  | failed new met clear outcome => cases done
  | registered new met clear fine =>
    refine ⟨clear.distinct,?_,dispatched_behind bridge s plugin.slots⟩
    dsimp only
    rw [find_upsert,if_pos rfl]

-- The plugins that leave the subsystems as they were.
structure Unnoticed (plugin : Plugin Code) (cleanup : Option (Except Thrown Unit)) (behind : Subsystems Code η) : Prop where
  formatters : ∀ f ∈ plugin.formatters,
    Unseen bridge.registerFormatter (bridge.unregisterFormatter && cleaned cleanup) behind.formatters (f.format,f.formatterClass)
  transformations : ∀ t ∈ plugin.transformations,
    Undone bridge.registerTransformation (bridge.unregisterTransformation && cleaned cleanup) behind.transformations (t.type,t.execute)

theorem unregister_restores_exact (s : PluginRegistry Code η) (plugin : Plugin Code)
    (init cleanup : Option (Except Thrown Unit)) (done : (s.register bridge plugin init).1 = .ok ()) :
    Restores s.subsystems ((s.register bridge plugin init).2.unregister bridge plugin.name cleanup).2.subsystems ↔
      Unnoticed bridge plugin cleanup s.subsystems := by
  obtain ⟨distinct,found,behind⟩ := registered_then bridge s plugin init done
  obtain ⟨ofFormatters,ofTransformations,-⟩ := plugin_entries plugin
  have formatters := formatters_exact bridge.registerFormatter
    (bridge.unregisterFormatter && cleaned cleanup) s.subsystems.formatters _ (keysOf_distinct distinct .formatters)
  have transformations := lookups_exact bridge.registerTransformation (bridge.unregisterTransformation && cleaned cleanup)
    s.subsystems.transformations _ (keysOf_distinct distinct .transformations)
  have after := unregistered_behind bridge _ plugin cleanup found
  rw [behind] at after
  have left : ((s.register bridge plugin init).2.unregister bridge plugin.name cleanup).2.subsystems.formatters =
        whenGiven (bridge.unregisterFormatter && cleaned cleanup) (Entries.removeAll · (keysOf .formatters plugin.slots))
          (s.subsystems.added bridge plugin.slots).formatters ∧
      ((s.register bridge plugin init).2.unregister bridge plugin.name cleanup).2.subsystems.transformations =
        whenGiven (bridge.unregisterTransformation && cleaned cleanup) (Entries.removeAll · (keysOf .transformations plugin.slots))
          (s.subsystems.added bridge plugin.slots).transformations := by
    rw [after,whenGiven_and,whenGiven_and]
    cases cleaned cleanup <;> exact ⟨rfl,rfl⟩
  rw [Restores,left.1,left.2]
  simp only [Subsystems.added,keysOf,formatters,transformations]
  rw [ofFormatters,ofTransformations,List.forall_mem_map,List.forall_mem_map]
  exact ⟨fun parts => ⟨parts.1,parts.2⟩,fun parts => ⟨parts.formatters,parts.transformations⟩⟩

end Frame

-- The wiring of the README, and a plugin with a formatter for a built-in format.
def wired : SubsystemBridge (Option OutputFormat) Unit :=
  { registerFormatter := true, unregisterFormatter := true, registerTransformation := true }
def builtIns : PluginRegistry (Option OutputFormat) Unit := .initial ⟨initialFormatters some,.empty,()⟩
def hostsPlugin : Plugin (Option OutputFormat) := { manifest := { name := ['p'] }, formatters := [⟨OutputFormat.Hosts.text,none⟩] }

theorem builtIn_lost : (builtIns.register wired hostsPlugin none).1 = .ok () ∧
    ¬Restores builtIns.subsystems ((builtIns.register wired hostsPlugin none).2.unregister wired hostsPlugin.name none).2.subsystems := by
  refine ⟨rfl,?_⟩
  rintro ⟨same,-⟩
  have hosts := same OutputFormat.Hosts.text
  cases hosts

def freshPlugin : Plugin (Option OutputFormat) := { manifest := { name := ['p'] }, formatters := [⟨['x'],none⟩] }

theorem fresh_restored : Restores builtIns.subsystems ((builtIns.register wired freshPlugin none).2.unregister wired freshPlugin.name none).2.subsystems := by
  apply (unregister_restores_exact wired builtIns freshPlugin none none rfl).mpr
  constructor
  · rintro f (- | ⟨-,⟨⟩⟩)
    exact .inl rfl
  · rintro t ⟨⟩

end AdblockCompiler.Plugins
