import Mathlib.Tactic.MkIffOfInductiveProp
import ReleaseWeaver.Proofs.Tracking.Balance
import ReleaseWeaver.Proofs.Tracking.Woven
import ReleaseWeaver.Proofs.Weave.Failures

/-
  No handle of a woven target is lost. The container of an object holds what the handle calls on
  the object have produced, and once the teardown was left it is released with all its
  subscriptions. This is said of every program with a woven module over the reactive library, as
  long as a host passes no container of the target, the branches of the target stay in their
  bodies, and the release of the contract is dispatched on its receiver. Without one of these
  conditions handles get lost.
-/

namespace ReleaseWeaver

open Machine (Watch Program)

namespace Weave

variable {c : WeaveContext} {capability : Option TypeRef} {m : Module} {field : String}

/-- The preparation does not rename the tracking field. -/
theorem trackingField_prepared {name : String} {t : TypeDef}
    (named : ∀ t, m.findType? name = some t → (c.trackingField t).name = field)
    (known : (prepared c capability m).findType? name = some t) :
    (c.trackingField t).name = field := by
  obtain ⟨t₀, known₀, same⟩ := trackingField_of_shapes (c := c) (prepared_kept c capability m).1 known
  rw [same]
  exact named t₀ known₀

/-- The preparation brings no other target to the tracking field. -/
theorem Apart.prepared {owner : String}
    (apart : Apart c (Target.select m c.markers .trackHandles) owner field m)
    (collected : c.markers = MarkerTable.collect m c.config.markers) :
    Apart c (Target.select (prepared c capability m) c.markers .trackHandles) owner field
      (prepared c capability m) := by
  obtain ⟨shapes, _⟩ := prepared_kept c capability m
  refine Apart.of_shapes (fun other listed => apart other ?_) shapes
  rw [collected] at listed ⊢
  exact Target.mem_select_of_shapes shapes listed

/-- A target that a run releases is arranged in the module that the run leaves. -/
theorem Finished.arranged {outcome : WeaveOutcome} {entry : TargetReport}
    (finished : Finished c capability m outcome) (reported : entry ∈ outcome.entries)
    (family : entry.family = .trackHandles) (released : entry.isReleased = true)
    (collected : c.markers = MarkerTable.collect m c.config.markers)
    (standard : c.collaborators.Standard)
    (named : ∀ t, m.findType? entry.typeName = some t → (c.trackingField t).name = field)
    (apart : Apart c (Target.select m c.markers .trackHandles) entry.typeName field m)
    (avoids : ∀ key own b, m.findMethod? key = some own → own.body = some b → b.Avoids field)
    (bound : ∀ key own b, m.findMethod? key = some own → own.body = some b →
      key.owner = entry.typeName → b.Bound) :
    ∃ w : Watch, w.field = field ∧
      (∀ key h, (key, h) ∈ w.sites ↔ (key, h) ∈ entry.target.sites c (prepared c capability m)) ∧
      outcome.module.Arranged c.disposal entry.typeName w := by
  cases finished with
  | clash => cases reported
  | @woven entries entries' m' m'' log report pass reports quiet commands =>
    have listed : entry ∈ entries := by
      obtain tracked | ⟨cap, rfl, commanded⟩ := mem_entries_woven reports reported
      · exact tracked
      · have commands := (of_mem_select ((commands cap rfl).2.mem commanded)).1
        rw [show entry.target.family = .trackHandles from family] at commands
        cases commands
    obtain ⟨_, weaves⟩ := pass.weaves rfl listed released
    have avoids' : ∀ key own b, (prepared c capability m).findMethod? key = some own →
        own.body = some b → b.Avoids field :=
      prepared_bodies (fun _ b => b.Avoids field)
        (fun _ _ plain => Body.avoids_of_plain plain field) avoids
    have bound' : ∀ key own b, (prepared c capability m).findMethod? key = some own →
        own.body = some b → key.owner = entry.typeName → b.Bound :=
      prepared_bodies (fun key b => key.owner = entry.typeName → b.Bound)
        (fun _ _ plain _ => Body.bound_of_plain plain) bound
    obtain ⟨w, same, sites, arranged⟩ := weaves.arranged standard
      (Target.nodup_select (prepared c capability m) c.markers .trackHandles)
      (fun _ => trackingField_prepared named) (apart.prepared collected)
      (fun key own found b body => avoids' key own b found body)
      (fun key own b owned found body => bound' key own b found body owned)
    refine ⟨w, same, sites, ?_⟩
    cases capability with
    | none =>
      rw [quiet rfl]
      exact arranged
    | some capability => exact (commands capability rfl).2.arranged arranged

end Weave

namespace Module

/-- The name of the tracking field that a type gets. -/
def trackingFieldOf (m : Module) (config : Config) (typeName : String) : String :=
  trackingFieldName config.fieldPrefix ((m.findType? typeName).getD default).name

/-- What there is to watch of a target: its tracking field, the handle calls in its methods that
are in scope, and the teardown that it has in the woven module. -/
def watch (m : Module) (config : Config) (target : Target) : Watch :=
  match Collaborators.resolve m config with
  | .error _ => default
  | .ok collaborators =>
    let c : WeaveContext := ⟨config, collaborators, MarkerTable.collect m config.markers⟩
    let teardown := ((m.weave config).module.findType? target.typeName).bind fun t =>
      t.ownTeardown? c.disposal
    { field := m.trackingFieldOf config target.typeName
      sites := target.sites c (Weave.start c m)
      teardown := (teardown.map Prod.fst).getD default }

/-- No instruction of the module reads or writes a field of this name. -/
def Avoids (m : Module) (field : String) : Prop :=
  ∀ t ∈ m.types, ∀ d ∈ t.methods, ∀ b ∈ d.body, b.Avoids field

instance (m : Module) (field : String) : Decidable (m.Avoids field) :=
  inferInstanceAs (Decidable (∀ t ∈ m.types, ∀ d ∈ t.methods, ∀ b ∈ d.body, b.Avoids field))

/-- No other handle target gets a tracking field of the same name. -/
def OwnsField (m : Module) (config : Config) (typeName : String) : Prop :=
  ∀ other ∈ Target.select m (MarkerTable.collect m config.markers) .trackHandles,
    other.typeName ≠ typeName →
      m.trackingFieldOf config other.typeName ≠ m.trackingFieldOf config typeName

instance (m : Module) (config : Config) (typeName : String) :
    Decidable (m.OwnsField config typeName) :=
  inferInstanceAs (Decidable (∀ other ∈ Target.select m _ .trackHandles,
    other.typeName ≠ typeName →
      m.trackingFieldOf config other.typeName ≠ m.trackingFieldOf config typeName))

/-- A handle target that a run releases, and whose tracking field no instruction of the module
uses. -/
@[mk_iff]
structure Equips (m : Module) (config : Config) (entry : TargetReport) : Prop where
  reported : entry ∈ (m.weave config).entries
  family : entry.family = .trackHandles
  released : entry.isReleased = true
  unused : m.Avoids (m.trackingFieldOf config entry.typeName)

instance (m : Module) (config : Config) (entry : TargetReport) :
    Decidable (m.Equips config entry) := decidable_of_iff _ (equips_iff m config entry).symm

/-- The tracking field is used by no other target either. -/
@[mk_iff]
structure Reserves (m : Module) (config : Config) (entry : TargetReport) : Prop
    extends m.Equips config entry where
  alone : m.OwnsField config entry.typeName

instance (m : Module) (config : Config) (entry : TargetReport) :
    Decidable (m.Reserves config entry) := decidable_of_iff _ (reserves_iff m config entry).symm

/-- The run works with the default container, helper and release method. -/
@[mk_iff]
structure Tracks (m : Module) (config : Config) (entry : TargetReport) : Prop
    extends m.Reserves config entry where
  container : config.trackingContainer = Config.default.trackingContainer
  helper : config.registrationHelper = Config.default.registrationHelper
  release : config.releaseMethod = Config.default.releaseMethod

instance (m : Module) (config : Config) (entry : TargetReport) :
    Decidable (m.Tracks config entry) := decidable_of_iff _ (tracks_iff m config entry).symm

/-- The branches in the bodies of a type stay in their bodies. -/
def BranchesWithin (m : Module) (typeName : String) : Prop :=
  ∀ t ∈ m.findType? typeName, ∀ d ∈ t.methods, ∀ b ∈ d.body, b.Bound

instance (m : Module) (typeName : String) : Decidable (m.BranchesWithin typeName) :=
  inferInstanceAs
    (Decidable (∀ t ∈ m.findType? typeName, ∀ d ∈ t.methods, ∀ b ∈ d.body, b.Bound))

section Target

variable {m : Module} {config : Config} {entry : TargetReport} {collaborators : Collaborators}
  {name field : String} {key : MethodKey} {own : MethodDef} {b : Body}

theorem trackingFieldOf_of_known {t : TypeDef} (known : m.findType? name = some t) :
    m.trackingFieldOf config name = trackingFieldName config.fieldPrefix t.name := by
  rw [trackingFieldOf, known, Option.getD_some]

theorem OwnsField.apart (alone : m.OwnsField config name) :
    Weave.Apart ⟨config, collaborators, MarkerTable.collect m config.markers⟩
      (Target.select m (MarkerTable.collect m config.markers) .trackHandles) name
      (m.trackingFieldOf config name) m := by
  intro other listed ne t known
  have apart := alone other listed ne
  rw [trackingFieldOf_of_known known] at apart
  exact apart

theorem mem_methods_of_findMethod? (found : m.findMethod? key = some own) :
    ∃ t, m.findType? key.owner = some t ∧ own ∈ t.methods := by
  obtain ⟨t, known, there⟩ := findMethod?_eq_some.1 found
  exact ⟨t, known, List.mem_of_getElem? there⟩

theorem Avoids.body (avoids : m.Avoids field) (found : m.findMethod? key = some own)
    (body : own.body = some b) : b.Avoids field := by
  obtain ⟨t, known, listed⟩ := mem_methods_of_findMethod? found
  exact avoids t (mem_of_findType? known).1 own listed b body

theorem BranchesWithin.bound (within : m.BranchesWithin name) (found : m.findMethod? key = some own)
    (body : own.body = some b) (owned : key.owner = name) : b.Bound := by
  obtain ⟨t, known, listed⟩ := mem_methods_of_findMethod? found
  exact within t (owned ▸ known) own listed b body

end Target

/-- A target that a run tracks is arranged in the woven module, as its watch says. -/
theorem Tracks.arranged {m : Module} {config : Config} {entry : TargetReport}
    (tracks : m.Tracks config entry) (within : m.BranchesWithin entry.typeName) :
    ∃ collaborators, Collaborators.resolve m config = .ok collaborators ∧
      (m.weave config).module.Arranged ⟨collaborators.contract, config.releaseMethod⟩
        entry.typeName (m.watch config entry.target) := by
  obtain ⟨e, stopped⟩ | ⟨collaborators, capability, resolved, present, finished⟩ :=
    Weave.weave_cases m config
  · have reported := tracks.reported
    rw [stopped] at reported
    cases reported
  have standard := Collaborators.standard_of_resolve resolved tracks.container tracks.helper
    tracks.release
  obtain ⟨w, same, sites, arranged⟩ := finished.arranged tracks.reported tracks.family
    tracks.released rfl standard (fun t known => (trackingFieldOf_of_known known).symm)
    tracks.alone.apart (fun _ _ _ => tracks.unused.body) fun _ _ _ => within.bound
  -- What was found is what the watch names, up to the order of the handle calls.
  rw [Weave.prepared_eq_start present] at sites
  obtain ⟨own, found, _⟩ := Option.map_eq_some_iff.1 arranged.teardown.here
  obtain ⟨t, known, _⟩ := findMethod?_eq_some.1 found
  rw [arranged.teardown.owned] at known
  obtain ⟨own, declares⟩ := arranged.teardown.own known
  have watched : m.watch config entry.target =
      { field := w.field
        sites := entry.target.sites ⟨config, collaborators, MarkerTable.collect m config.markers⟩
          (Weave.start ⟨config, collaborators, MarkerTable.collect m config.markers⟩ m)
        teardown := w.teardown } := by
    unfold watch
    rw [resolved]
    dsimp only
    rw [show entry.target.typeName = entry.typeName from rfl, known, Option.bind_some, declares,
      same]
    rfl
  rw [watched]
  exact ⟨collaborators, resolved, arranged.of_sites fun key h => (sites key h).symm⟩

/-- No handle of a woven target is lost, whatever a host asks for with values that are in none of
the target's tracking fields. -/
theorem weave_keepsHandles {m : Module} {config : Config} {entry : TargetReport} {p : Program}
    (tracks : m.Tracks config entry) (within : m.BranchesWithin entry.typeName)
    (woven : p.module = (m.weave config).module) (library : p.natives = Machine.Reactive.natives)
    (dispatches : p.Dispatches) :
    p.KeepsHandles (m.watch config entry.target)
      (Machine.Request.Outside (m.watch config entry.target).field) := by
  obtain ⟨_, _, arranged⟩ := tracks.arranged within
  obtain ⟨role, staging⟩ := arranged.staging
  exact Program.keepsHandles_of_staging (woven ▸ staging) library dispatches
    fun _ _ admitted => admitted

end Module

/-! ## A class that keeps its handles, and four that lose them -/

namespace Sample

/-- Subscribe to a fresh source and drop the handle. -/
def listen : List Instr := [.call never, .call subscribe, .pop]

/-- A marked class with a constructor, a method that listens, and an empty teardown. -/
def keeper (m : Module) (params : List TypeRef) (code : List Instr) : Module :=
  let building : Building Unit := do
    let model ← Model.startType
      { ns := modelsNamespace, name := "Keeper", base := some object, interfaces := [disposable] }
      objectConstructor
    model.mark trackHandlesMarker
    let _ ← model.constructor params code
    let _ ← model.voidMethod "Listen" listen
    let _ ← model.teardown []
  match building.run m with
  | .ok _ m | .error _ m => m

/-- Build in the module of the imported types. -/
def built (building : Building Unit) : Module :=
  match building.run importedModule with
  | .ok _ m | .error _ m => m

/-- A marked class, so far without members. -/
def startKeeper (base : TypeRef) (baseConstructor : MethodRef) : Building Model := do
  let model ← Model.startType
    { ns := modelsNamespace, name := "Keeper", base := some base, interfaces := [disposable] }
    baseConstructor
  model.mark trackHandlesMarker
  return model

def keeperName : String := "Sweep.Tests.Models.Keeper"

def keeperEntry (registrations : Nat) : TargetReport :=
  { typeName := keeperName, family := .trackHandles, wide := true, state := .released,
    registrations, constructors := 1 }

def plainKeeper : Module := keeper importedModule [] []

/-- The constructor adds to the container that it is given. -/
def guessingKeeper : Module :=
  keeper importedModule [container] [.ldarg 1, .ldnull, .callvirt containerAdd]

/-- The constructor branches to the first instruction of a registration. -/
def strayingKeeper : Module :=
  keeper importedModule [] ([.ldnull, .branch .always (.nth 12)] ++ listen)

/-- The contract is a class whose release does nothing and is not virtual. -/
def directKeeper : Module :=
  keeper (importedModule.modifyType "System.IDisposable" fun t =>
    { t with flags := {}, methods := [{ name := "Dispose", body := some (.ofInstrs [.ret]) }] }) [] []

def host (m : Module) : Program :=
  { module := (m.weave Config.default).module, natives := Machine.Reactive.natives }

theorem module_host (m : Module) : (host m).module = (m.weave Config.default).module := rfl

def keeperWatch (m : Module) : Watch := m.watch Config.default (keeperEntry 1).target

end Sample

open Sample Machine Program in
theorem Module.weave_keepsHandles_plainKeeper :
    (host plainKeeper).KeepsHandles (keeperWatch plainKeeper)
        (Request.Outside (keeperWatch plainKeeper).field) ∧
      ∃ events memory, (host plainKeeper).Runs (keeperWatch plainKeeper)
          (Request.Outside (keeperWatch plainKeeper).field) events (.idle memory) ∧
        events.count (.prologue 1) = 1 ∧ .left 1 ∈ events ∧
        producedOn 1 events = [.object 4, .object 6] ∧
        memory.heap.tracking? (keeperWatch plainKeeper).field 1 =
          some ([.object 4, .object 6], true) := by
  have keeps : (host plainKeeper).KeepsHandles (keeperWatch plainKeeper)
      (Request.Outside (keeperWatch plainKeeper).field) := by
    have tracks : plainKeeper.Tracks Config.default (keeperEntry 1) := by decide +kernel
    have within : plainKeeper.BranchesWithin keeperName := by decide +kernel
    exact weave_keepsHandles tracks within (module_host plainKeeper) rfl (by decide +kernel)
  have played : ((host plainKeeper).play (keeperWatch plainKeeper)
      (Request.Outside (keeperWatch plainKeeper).field) 20 [] {}
      [.construct keeperName [], .callByName (.object 1) "Listen" [],
        .callByName (.object 1) "Dispose" [], .callByName (.object 1) "Listen" []]).any
      (fun played => played.1.count (.prologue 1) = 1 ∧ Event.left 1 ∈ played.1 ∧
        producedOn 1 played.1 = [.object 4, .object 6]) = true := by
    decide +kernel
  obtain ⟨events, memory, run, check⟩ := exists_runs played
  obtain ⟨once, left, produced⟩ := of_decide_eq_true check
  obtain ⟨tracked, _⟩ := keeps.released run once left
  rw [produced] at tracked
  exact ⟨keeps, events, memory, run, once, left, produced, tracked⟩

/-- Requests after which a container holds something else than what was produced. -/
theorem Machine.Program.not_keepsHandles {p : Program} {w : Watch}
    {admissible : Machine.Heap → Machine.Request → Prop} [DecidableRel admissible] {count o : Nat}
    {requests : List Machine.Request}
    (lost : (p.play w admissible count [] {} requests).any (fun (events, memory) =>
      events.count (.prologue o) = 1 ∧ (memory.heap.tracking? w.field o).map Prod.fst ≠
        some (Machine.producedOn o events)) = true) : ¬p.KeepsHandles w admissible := by
  intro keeps
  obtain ⟨events, memory, run, check⟩ := exists_runs lost
  obtain ⟨once, other⟩ := of_decide_eq_true check
  obtain ⟨released, held⟩ := keeps.entries run once rfl
  exact other (congrArg (Option.map Prod.fst) held)

open Sample Machine Program in
/-- Handles get lost where a host passes the container of an object, or an object before it is
there, where a branch leads out of its body, and where the contract's release is not dispatched. -/
theorem Module.weave_losesHandles :
    (plainKeeper.Tracks Config.default (keeperEntry 1) ∧ plainKeeper.BranchesWithin keeperName ∧
      (host plainKeeper).Dispatches ∧
      ¬(host plainKeeper).KeepsHandles (keeperWatch plainKeeper) fun _ _ => True) ∧
    (guessingKeeper.Tracks Config.default (keeperEntry 1) ∧
      guessingKeeper.BranchesWithin keeperName ∧ (host guessingKeeper).Dispatches ∧
      ¬(host guessingKeeper).KeepsHandles (keeperWatch guessingKeeper) fun h request =>
        ∀ v ∈ request.values, ∀ o ∈ h.objects, o.field (keeperWatch guessingKeeper).field ≠ v) ∧
    (strayingKeeper.Tracks Config.default (keeperEntry 2) ∧ (host strayingKeeper).Dispatches ∧
      ¬(host strayingKeeper).KeepsHandles (keeperWatch strayingKeeper)
        (Request.Outside (keeperWatch strayingKeeper).field)) ∧
    directKeeper.Tracks Config.default (keeperEntry 1) ∧ directKeeper.BranchesWithin keeperName ∧
      ¬(host directKeeper).KeepsHandles (keeperWatch directKeeper)
        (Request.Outside (keeperWatch directKeeper).field) := by
  refine ⟨⟨by decide +kernel, by decide +kernel, by decide +kernel, ?_⟩,
    ⟨by decide +kernel, by decide +kernel, by decide +kernel, ?_⟩,
    ⟨by decide +kernel, by decide +kernel, ?_⟩, by decide +kernel, by decide +kernel, ?_⟩
  · have lost : ((host plainKeeper).play (keeperWatch plainKeeper) (fun _ _ => True) 20 [] {}
        [.construct keeperName [],
          .invoke { method := containerAdd, args := [.object 2, .null], isVirtual := true }]).any
        (fun (events, memory) => events.count (.prologue 1) = 1 ∧
          (memory.heap.tracking? (keeperWatch plainKeeper).field 1).map Prod.fst ≠
            some (producedOn 1 events)) = true := by
      decide +kernel
    exact not_keepsHandles lost
  · have lost : ((host guessingKeeper).play (keeperWatch guessingKeeper)
        (fun h request => ∀ v ∈ request.values, ∀ o ∈ h.objects,
          o.field (keeperWatch guessingKeeper).field ≠ v) 20 [] {}
        [.construct keeperName [.object 2]]).any
        (fun (events, memory) => events.count (.prologue 1) = 1 ∧
          (memory.heap.tracking? (keeperWatch guessingKeeper).field 1).map Prod.fst ≠
            some (producedOn 1 events)) = true := by
      decide +kernel
    exact not_keepsHandles lost
  · have lost : ((host strayingKeeper).play (keeperWatch strayingKeeper)
        (Request.Outside (keeperWatch strayingKeeper).field) 20 [] {}
        [.construct keeperName []]).any
        (fun (events, memory) => events.count (.prologue 1) = 1 ∧
          (memory.heap.tracking? (keeperWatch strayingKeeper).field 1).map Prod.fst ≠
            some (producedOn 1 events)) = true := by
      decide +kernel
    exact not_keepsHandles lost
  · intro keeps
    have played : ((host directKeeper).play (keeperWatch directKeeper)
        (Request.Outside (keeperWatch directKeeper).field) 20 [] {}
        [.construct keeperName [], .callByName (.object 1) "Listen" [],
          .callByName (.object 1) "Dispose" []]).any
        (fun (events, memory) => events.count (.prologue 1) = 1 ∧ Event.left 1 ∈ events ∧
          .object 4 ∈ producedOn 1 events ∧ memory.heap.isOpen (.object 4) = true) = true := by
      decide +kernel
    obtain ⟨events, memory, run, check⟩ := exists_runs played
    obtain ⟨once, left, produced, stays⟩ := of_decide_eq_true check
    have closed := (keeps.released run once left).2 (.object 4) produced
    rw [stays] at closed
    cases closed

end ReleaseWeaver
