import ReleaseWeaver.Proofs.Machine.Returns
import ReleaseWeaver.Proofs.Tracking.Chaining

/-
  The order in which the containers of an object are released. The handle targets on the base chain
  of a class form a chain of teardowns, each of which hands over to the one above it before it
  releases its own container. So a release of an object of the class through the disposal contract
  releases the containers of the targets, ancestors first, each once and with all its entries, as
  long as they are kept apart and stay in their fields. Without one of the conditions on the chain
  or on the run they are not released in this order, or not at all. Main statement:
  `Module.weave_releasesInOrder`.
-/

namespace ReleaseWeaver

/-! ## Releases through the contract -/

namespace Machine

/-- A virtual call of the contract's release method on an object. -/
@[mk_iff]
structure Call.ReleasesThrough (c : Call) (config : Config) (o : Nat) : Prop where
  isVirtual : c.isVirtual = true
  hasThis : c.method.hasThis = true
  declaring : c.method.declaring.definitionName = config.disposalContract.name
  named : c.method.name = config.releaseMethod
  plain : c.method.params = []
  receiver : c.args = [.object o]

/-- Whenever these fields of an object of the class hold containers that are not released, each
release of the object through the contract that returns releases them one after the other. -/
def Program.ReleasesInOrder (p : Program) (config : Config) (className : String)
    (fields : List String) (admissible : Nat → Heap → List State → Prop) : Prop :=
  ∀ o memory under c states m result,
    (∃ object, memory.heap.get? o = some object ∧ object.className = className) →
    (∀ field ∈ fields, ∃ entries, memory.heap.tracking? field o = some (entries, false)) →
    c.ReleasesThrough config o → p.Returns memory under (.invoke c) states m result →
    admissible o memory.heap states → DrainsInOrder fields o memory.heap states m.heap

/-- The containers in the fields are kept apart at first. -/
def KeptApart (fields : List String) (_ : Nat) (h : Heap) (_ : List State) : Prop :=
  ∀ field ∈ fields, h.Ordered field none

/-- Nothing is stored into the fields of the object. -/
def Unreplaced (fields : List String) (o : Nat) (_ : Heap) (states : List State) : Prop :=
  ∀ field ∈ fields, ∀ s ∈ states, ∀ v, s.stores? field ≠ some (o, v)

/-- The containers of the object are kept apart at first, and they stay in their fields. -/
structure Undisturbed (fields : List String) (o : Nat) (h : Heap) (states : List State) : Prop where
  apart : KeptApart fields o h states
  unreplaced : Unreplaced fields o h states

section Over

variable {fields : List String} {o : Nat} {before after : Heap} {states : List State}
  {under : List Caller}

theorem Undisturbed.of_over
    (undisturbed : Undisturbed fields o before (states.map (State.over under))) :
    Undisturbed fields o before states :=
  ⟨undisturbed.apart, fun field among s passed =>
    undisturbed.unreplaced field among (s.over under) (List.mem_map_of_mem passed)⟩

/-- Who waits below has no part in it. -/
theorem DrainsInOrder.over (inOrder : DrainsInOrder fields o before states after) :
    DrainsInOrder fields o before (states.map (State.over under)) after := by
  obtain ⟨times, increasing, drains⟩ := inOrder
  refine ⟨times, increasing, drains.imp fun field time drained => ?_⟩
  obtain ⟨inside, each, complete⟩ := drained
  refine ⟨by rw [List.length_map]; exact inside, fun i s here => ?_, complete⟩
  rw [List.getElem?_map] at here
  obtain ⟨s', here', rfl⟩ := Option.map_eq_some_iff.1 here
  exact each i s' here'

end Over

end Machine

/-! ## Runs that are carried out -/

namespace Machine

instance (c : Call) (config : Config) (o : Nat) : Decidable (c.ReleasesThrough config o) :=
  decidable_of_iff _ (c.releasesThrough_iff config o).symm

instance (fields : List String) (o : Nat) (h : Heap) (states : List State) :
    Decidable (Unreplaced fields o h states) :=
  decidable_of_iff (∀ field ∈ fields, ∀ s ∈ states, (s.stores? field).map Prod.fst ≠ some o) <| by
    refine forall₄_congr fun field _ s _ => ?_
    cases s.stores? field with
    | none => simp
    | some stored => simp [Prod.ext_iff, eq_comm]

namespace Program

/-- What is there when a request has returned, if it returns within so many steps. -/
def returned? (p : Program) (memory : Memory) (request : Request) (count : Nat) : Option Memory :=
  match p.runFor count (p.perform memory [] request) with
  | .finished m (.ok _) => some m
  | _ => none

/-- The states that a request passes in so many steps. -/
def passed (p : Program) (memory : Memory) (request : Request) (count : Nat) : List State :=
  p.trace count (p.perform memory [] request)

/-- What the construction of an object leaves. -/
def constructed (p : Program) (className : String) (count : Nat) : Memory :=
  (p.returned? {} (.construct className []) count).getD {}

variable {p : Program} {memory m : Memory} {count : Nat}

theorem returns_of_returned? {request : Request}
    (returned : p.returned? memory request count = some m) :
    ∃ result, p.Returns memory [] request (p.passed memory request count) m result := by
  have passes := p.passes_trace count (p.perform memory [] request)
  unfold returned? at returned
  split at returned
  · next m' result finished =>
    cases returned
    rw [finished] at passes
    exact ⟨result, .of_finished passes⟩
  · cases returned

/-- A release of an object of the class through the contract that returns within so many steps,
with containers in the fields at first that are not released. -/
@[mk_iff]
structure Attempts (p : Program) (config : Config) (className : String) (fields : List String)
    (memory : Memory) (c : Call) (o count : Nat) : Prop where
  made : ∃ object ∈ memory.heap.get? o, object.className = className
  unreleased : ∀ field ∈ fields, (memory.heap.tracking? field o).map Prod.snd = some false
  through : c.ReleasesThrough config o
  returns : (p.returned? memory (.invoke c) count).isSome = true

section Attempts

variable {config : Config} {className : String} {fields : List String} {c : Call} {o : Nat}

instance : Decidable (p.Attempts config className fields memory c o count) :=
  decidable_of_iff _ (p.attempts_iff config className fields memory c o count).symm

theorem Attempts.drainsInOrder {admissible : Nat → Heap → List State → Prop}
    (attempts : p.Attempts config className fields memory c o count)
    (inOrder : p.ReleasesInOrder config className fields admissible)
    (admitted : admissible o memory.heap (p.passed memory (.invoke c) count)) :
    ∃ m ∈ p.returned? memory (.invoke c) count,
      DrainsInOrder fields o memory.heap (p.passed memory (.invoke c) count) m.heap := by
  obtain ⟨m, returned⟩ := Option.isSome_iff_exists.1 attempts.returns
  obtain ⟨result, returns⟩ := returns_of_returned? returned
  refine ⟨m, returned, inOrder o memory [] c _ m result attempts.made (fun field among => ?_)
    attempts.through returns admitted⟩
  obtain ⟨⟨entries, _⟩, tracked, rfl⟩ := Option.map_eq_some_iff.1 (attempts.unreleased field among)
  exact ⟨entries, tracked⟩

/-- Such a release that does not release the containers in order. -/
def Misreleases (p : Program) (config : Config) (className : String) (fields : List String)
    (memory : Memory) (c : Call) (o count : Nat) : Prop :=
  p.Attempts config className fields memory c o count ∧
    ∀ m ∈ p.returned? memory (.invoke c) count,
      ¬DrainsInOrder fields o memory.heap (p.passed memory (.invoke c) count) m.heap

instance : Decidable (p.Misreleases config className fields memory c o count) :=
  inferInstanceAs (Decidable (_ ∧ _))

theorem Misreleases.not_releasesInOrder {admissible : Nat → Heap → List State → Prop}
    (misreleases : p.Misreleases config className fields memory c o count)
    (admitted : admissible o memory.heap (p.passed memory (.invoke c) count)) :
    ¬p.ReleasesInOrder config className fields admissible := by
  intro inOrder
  obtain ⟨m, returned, drains⟩ := misreleases.1.drainsInOrder inOrder admitted
  exact misreleases.2 m returned drains

end Attempts

end Program

end Machine

namespace Module

open Machine (Program)

section Chain

variable {c : WeaveContext} {m : Module} {t : TypeDef} {p : Program} {memory : Machine.Memory}
  {o : Nat} {object : Machine.Object} (chain : m.ReleaseChain c.config t)
  (orderly : m.Orderly c.config t) (there : memory.heap.get? o = some object)
  (classed : object.className = t.definitionName)

include chain orderly there classed

/-- An object of the lowest target is no container, for the library does not release its class. -/
theorem ReleaseChain.isFree {field : String} (ordered : memory.heap.Ordered field none) :
    memory.heap.IsFree field none (.object o) := by
  refine Machine.Heap.isFree_object ⟨object, there⟩ (by simp) fun o' tracks => ?_
  obtain ⟨container, _, _, there', named, _⟩ := ordered.tracked o' o tracks
  rw [there] at there'
  cases there'
  obtain ⟨lowest, listed, same⟩ := chain.exists_lowest (orderly .grounded)
  have bare := orderly .bare lowest listed
  have release : c.config.releaseMethod = Config.default.releaseMethod := orderly .release
  rw [same, ← classed, named, release] at bare
  exact absurd bare (by decide +kernel)

/-- A watch can be kept on every container of the object. -/
theorem ReleaseChain.observes (completed : Weave.Completed c m (m.weave c.config))
    (woven : p.module = (m.weave c.config).module) {call : Machine.Call}
    (receiver : call.args = [.object o]) {states : List Machine.State}
    (unreleased : ∀ field ∈ m.trackingFields c.config t, ∃ entries,
      memory.heap.tracking? field o = some (entries, false))
    (undisturbed : Machine.Undisturbed (m.trackingFields c.config t) o memory.heap states)
    {entry : TargetReport} (listed : entry ∈ m.releasedChain c.config t) :
    p.Observes memory (.invoke call) states o (m.watch c.config entry.target) := by
  have field := field_watch completed entry.target
  have among : (m.watch c.config entry.target).field ∈ m.trackingFields c.config t :=
    field ▸ List.mem_map_of_mem listed
  have ordered := undisturbed.apart _ among
  have within : m.BranchesWithin entry.typeName := orderly .within entry listed
  obtain ⟨_, _, arranged⟩ := (chain.tracks orderly listed).arranged within
  obtain ⟨a, above, found⟩ := mem_releasedChain.1 listed
  obtain ⟨i, here⟩ := List.mem_iff_getElem?.1 above
  have grounded : m.Grounded t := orderly .grounded
  rw [grounded.getElem?_ancestors] at here
  refine ⟨woven ▸ arranged.staging, ordered, unreleased _ among, fun v passed => ?_,
    undisturbed.unreplaced _ among,
    fun d b known => chain.leavesLast grounded completed here found (woven ▸ known)⟩
  rw [show (Machine.Request.invoke call).values = [.object o] from receiver] at passed
  rw [List.mem_singleton.1 passed]
  exact chain.isFree orderly there classed ordered

end Chain

section Apart

variable {m : Module} {config : Config} {t : TypeDef} {entry : TargetReport} {p : Program}

/-- Whatever a host asks for with values that are in no tracking field, the containers are kept
apart. -/
theorem Tracks.ordered {events : List Machine.Event} {memory : Machine.Memory}
    (tracks : m.Tracks config entry) (within : m.BranchesWithin entry.typeName)
    (woven : p.module = (m.weave config).module) (library : p.natives = Machine.Reactive.natives)
    (dispatches : p.Dispatches)
    (run : p.Runs (m.watch config entry.target)
      (Machine.Request.Outside (m.watch config entry.target).field) events (.idle memory)) :
    memory.heap.Ordered (m.watch config entry.target).field none := by
  obtain ⟨_, _, arranged⟩ := tracks.arranged within
  obtain ⟨role, staging⟩ := arranged.staging
  have account : Machine.Account (m.watch config entry.target) (fun _ => True) events memory.heap
      none Machine.calm [] :=
    run.keeps (woven ▸ staging) library dispatches fun _ _ admitted => admitted
  exact account.ordered

/-- So are those of a chain in a heap that a host comes to. -/
theorem ReleaseChain.ordered {count : Nat} {requests : List Machine.Request}
    {heap : Machine.Heap} (chain : m.ReleaseChain config t) (orderly : m.Orderly config t)
    (woven : p.module = (m.weave config).module) (library : p.natives = Machine.Reactive.natives)
    (played : ∀ entry ∈ m.releasedChain config t,
      (p.play (m.watch config entry.target)
        (Machine.Request.Outside (m.watch config entry.target).field) count [] {} requests).any
        (fun played => played.2.heap.objects = heap.objects) = true) :
    ∀ field ∈ m.trackingFields config t, heap.Ordered field none := by
  have ended := chain.ended
  rw [weave_isOk, weavable_iff] at ended
  obtain ⟨c, rfl, weavable⟩ := ended
  intro field among
  obtain ⟨entry, listed, rfl⟩ := List.mem_map.1 among
  obtain ⟨events, memory, run, reached⟩ := Program.exists_runs (played entry listed)
  have same : memory.heap = heap :=
    congrArg Machine.Heap.mk (of_decide_eq_true reached)
  have dispatches : p.Dispatches := by
    have dispatched := (orderly .dispatched).2
    rw [← woven] at dispatched
    exact dispatched
  have field : (m.watch c.config entry.target).field = m.trackingFieldOf c.config entry.typeName :=
    field_watch weavable.completed entry.target
  rw [← same, ← field]
  exact (chain.tracks orderly listed).ordered (orderly .within entry listed) woven library
    dispatches run

end Apart

/-- Each release of an object of the lowest target releases the containers of the chain in its
order. -/
theorem weave_releasesInOrder {m : Module} {config : Config} {t : TypeDef} {p : Program}
    (listed : t ∈ m.types) (chain : m.ReleaseChain config t) (orderly : m.Orderly config t)
    (woven : p.module = (m.weave config).module)
    (library : p.natives = Machine.Reactive.natives) :
    p.ReleasesInOrder config t.definitionName (m.trackingFields config t)
      (Machine.Undisturbed (m.trackingFields config t)) := by
  intro o memory under call states m' result made unreleased through returns undisturbed
  have ended := chain.ended
  rw [weave_isOk, weavable_iff] at ended
  obtain ⟨c, rfl, weavable⟩ := ended
  have completed := weavable.completed
  have grounded : m.Grounded t := orderly .grounded
  obtain ⟨dispatched, dispatches⟩ := orderly .dispatched
  rw [← woven] at dispatched dispatches
  have unmarked := chain.unmarked
  rw [← completed.weavable.bound.markers] at unmarked
  obtain ⟨states, rfl, passes⟩ := returns.alone
  obtain ⟨object, there, classed⟩ := made
  have start : p.startClass memory.heap call = .ok t.definitionName := by
    rw [← classed]
    refine Program.startClass_dispatched through.isVirtual through.hasThis ?_
      (by rw [through.receiver]; rfl) there
    rw [Program.isVirtualMethod, through.named, through.plain, through.declaring]
    exact dispatched
  have observed : ∀ w ∈ (m.releasedChain c.config t).map fun entry => m.watch c.config entry.target,
      p.Observes memory (.invoke call) states o w := by
    intro w watched
    obtain ⟨entry, inside, rfl⟩ := List.mem_map.1 watched
    exact chain.observes orderly there classed completed woven through.receiver unreleased
      undisturbed.of_over inside
  have order := passes.drainsInOrder library dispatches observed
    (chain.isChain grounded listed orderly completed unmarked woven library) fun w last => by
      rw [List.getLast?_map] at last
      obtain ⟨entry, final, rfl⟩ := Option.map_eq_some_iff.1 last
      exact chain.enters grounded orderly completed woven library start through.named through.plain
        through.receiver final
  have fields : ((m.releasedChain c.config t).map fun entry => m.watch c.config entry.target).map
      Machine.Watch.field = m.trackingFields c.config t := by
    rw [List.map_map]
    exact List.map_congr_left fun entry _ => ReleaseChain.field_watch completed entry.target
  rw [fields] at order
  exact order.over

end Module

/-! ## Two targets, and how they are not released in order -/

namespace Sample

open Machine (Program)

/-- Build in a module. -/
def builtIn (m : Module) (building : Building Unit) : Module :=
  match building.run m with
  | .ok _ m | .error _ m => m

/-- A marked class, so far with a constructor that listens. -/
def startListener (ns name : String) (base : TypeRef) : Building Model := do
  let model ← Model.startType { ns, name, base := some base, interfaces := [disposable] }
    (constructorOf base [])
  model.mark trackHandlesMarker
  let _ ← model.constructor [] listen
  return model

/-- The marked class at the top, with this teardown. -/
def buildMid (release : String) (code : List Instr) : Building Unit := do
  let mid ← startListener modelsNamespace "Mid" object
  let _ ← mid.method { name := release, flags := .overridable } (code ++ [.ret])

/-- A marked class without a teardown below it. -/
def buildLeaf (ns name : String) : Building Unit := do
  let _ ← startListener ns name (Sample.model "Mid")

def ranks (m : Module) (release : String) (code : List Instr) : Module :=
  builtIn m do
    buildLeaf modelsNamespace "Leaf"
    buildMid release code

def ranked : Module := ranks importedModule "Dispose" []

/-- The teardown calls a constructor, which stores new containers. -/
def storing : Module :=
  ranks importedModule "Dispose" [.ldthis, .call (constructorOf (Sample.model "Leaf") [])]

def box : TypeRef := .plain "Sweep.Testing" "Box"

/-- The container is one whose release does nothing. -/
def boxed : Module :=
  let withBox := importType importedModule
    { imported "Sweep.Testing" "Box" "Sweep.Testing" with base := some container }
    [{ MethodDef.constructor with
        body := some (.ofInstrs [.ldthis, .call containerConstructor, .ret]) },
      { name := "Dispose", flags := .overridable, body := some (.ofInstrs [.ret]) }]
  ranks (withBox.modifyType "Sweep.Core.TrackingExtensions" fun t =>
    { t with methods := [staticMethod "TrackWith" (some disposable) [disposable, box]] })
    "Dispose" []

/-- The helper releases the container and makes it anew. -/
def resetting : Module :=
  ranks (importType importedModule (imported "Sweep.Core" "Keeping" "Sweep.Core")
    [{ staticMethod "Keep" (some disposable) [disposable, container] with
        body := some (.ofInstrs [.ldarg 1, .callvirt containerDispose, .ldarg 1,
          .call containerConstructor, .ldarg 0, .ret]) }])
    "Dispose" listen

/-- The containers have a release method of this name, which does nothing. -/
def closing : Module :=
  ranks ((importedModule.modifyType "System.IDisposable" fun t =>
      { t with methods := t.methods ++ [abstractMethod "Close"] }).modifyType
    "System.Reactive.Disposables.CompositeDisposable" fun t => { t with methods := t.methods ++
      [{ newSlotMethod "Close" with body := some (.ofInstrs [.ret]) }] }) "Close" []

/-- The contract is a class whose release does nothing and is not virtual. -/
def direct : Module :=
  ranks (importedModule.modifyType "System.IDisposable" fun t =>
    { t with flags := {}, methods := [{ name := "Dispose", body := some (.ofInstrs [.ret]) }] })
    "Dispose" []

/-- The teardown calls that of another class with the name of the lower one. -/
def twins : Module :=
  builtIn (ranks importedModule "Dispose" [.ldthis,
    .call { declaring := .plain "Sweep.Tests.Twins" "Leaf", name := "Dispose" }]) do
      let twin ← startListener "Sweep.Tests.Twins" "Leaf" object
      let _ ← twin.teardown []

/-- The teardown branches past what the run puts in front of its end. -/
def straying : Module :=
  ranks importedModule "Dispose" [.newobj containerConstructor, .branch .always (.nth 6)]

/-- Two classes above the targets are above each other. -/
def circling : Module :=
  builtIn importedModule do
    buildLeaf modelsNamespace "Leaf"
    let _ ← startListener modelsNamespace "Mid" (Sample.model "Base")
    let base ← Model.extending "Base" (Sample.model "Other") objectConstructor
    let _ ← base.constructor [] []
    let _ ← base.teardown []
    let _ ← Model.extending "Other" (Sample.model "Base") objectConstructor

/-- The lower class has the name of the library's subscriptions. -/
def shadowing : Module :=
  builtIn importedModule do
    buildMid "Dispose" []
    buildLeaf "Sweep.Testing" "Subscription"

/-- A module that misses one condition, and its configuration. -/
def disorderly : OrderCondition → Module × Config
  | .container => (boxed, { trackingContainer := ⟨"Sweep.Testing.Box", "Sweep.Testing"⟩ })
  | .helper => (resetting, { registrationHelper := ⟨"Sweep.Core.Keeping", "Keep", "Sweep.Core"⟩ })
  | .release => (closing, { releaseMethod := "Close" })
  | .dispatched => (direct, .default)
  | .alone => (twins, .default)
  | .within => (straying, .default)
  | .grounded => (circling, .default)
  | .bare => (shadowing, .default)

/-- The names of the lower one of the two targets. -/
def lowerNames : List String := ["Sweep.Tests.Models.Leaf", "Sweep.Testing.Subscription"]

def hostOf (m : Module) (config : Config) : Program :=
  { module := (m.weave config).module, natives := Machine.Reactive.natives }

theorem module_hostOf (m : Module) (config : Config) :
    (hostOf m config).module = (m.weave config).module := rfl

/-- The release of the first object. -/
def releaseFirst (config : Config) : Machine.Call where
  method := { declaring := disposable, name := config.releaseMethod }
  args := [.object 1]
  isVirtual := true

/-- The module misses no other condition, and an object of the lower target is not released in
order after its construction. -/
def MissesOnly (condition : OrderCondition) (m : Module) (config : Config) : Prop :=
  ∃ t ∈ m.types, t.definitionName ∈ lowerNames ∧ m.ReleaseChain config t ∧
    (∀ other, other ≠ condition → m.Meets config t other) ∧
    (hostOf m config).Misreleases config t.definitionName (m.trackingFields config t)
      ((hostOf m config).constructed t.definitionName 100) (releaseFirst config) 1 100

instance (condition : OrderCondition) (m : Module) (config : Config) :
    Decidable (MissesOnly condition m config) := by
  unfold MissesOnly
  infer_instance

theorem disorderly_missesOnly (condition : OrderCondition) :
    MissesOnly condition (disorderly condition).1 (disorderly condition).2 := by
  cases condition <;> decide +kernel

/-- A host that constructs an object of the type comes to the heap that its construction leaves,
whichever target of the chain is watched. -/
def Constructs (m : Module) (t : TypeDef) : Prop :=
  ∀ entry ∈ m.releasedChain .default t,
    ((hostOf m .default).play (m.watch .default entry.target)
      (Machine.Request.Outside (m.watch .default entry.target).field) 100 [] {}
      [.construct t.definitionName []]).any (fun played => played.2.heap.objects =
        ((hostOf m .default).constructed t.definitionName 100).heap.objects) = true

instance (m : Module) (t : TypeDef) : Decidable (Constructs m t) :=
  inferInstanceAs (Decidable (∀ entry ∈ m.releasedChain .default t, _ = _))

/-- The memory of an object of the lower target that has one container for both fields. -/
def aliased : Machine.Memory where
  heap := ⟨#[{ className := "Sweep.Tests.Models.Leaf",
               fields := [("$SweepTrackerMid", .object 2), ("$SweepTrackerLeaf", .object 2)] },
    { className := containerName, native := .container [] false }]⟩

end Sample

open Sample Machine Program in
theorem Module.weave_releasesInOrder_ranked :
    ∃ t ∈ ranked.types, ranked.ReleaseChain .default t ∧ ranked.Orderly .default t ∧
      ranked.trackingFields .default t = ["$SweepTrackerMid", "$SweepTrackerLeaf"] ∧
      (hostOf ranked .default).ReleasesInOrder .default t.definitionName
        (ranked.trackingFields .default t) (Undisturbed (ranked.trackingFields .default t)) ∧
      ∃ memory, ∃ m ∈ (hostOf ranked .default).returned? memory
        (.invoke (releaseFirst .default)) 100,
          DrainsInOrder (ranked.trackingFields .default t) 1 memory.heap
            ((hostOf ranked .default).passed memory (.invoke (releaseFirst .default)) 100)
            m.heap := by
  have facts : ∃ t ∈ ranked.types, t.definitionName ∈ lowerNames ∧
      ranked.ReleaseChain .default t ∧ ranked.Orderly .default t ∧
      ranked.trackingFields .default t = ["$SweepTrackerMid", "$SweepTrackerLeaf"] ∧
      (hostOf ranked .default).Attempts .default t.definitionName
        (ranked.trackingFields .default t)
        ((hostOf ranked .default).constructed t.definitionName 100) (releaseFirst .default) 1 100 ∧
      Unreplaced (ranked.trackingFields .default t) 1
        ((hostOf ranked .default).constructed t.definitionName 100).heap
        ((hostOf ranked .default).passed
          ((hostOf ranked .default).constructed t.definitionName 100)
          (.invoke (releaseFirst .default)) 100) ∧
      Constructs ranked t := by
    decide +kernel
  obtain ⟨t, listed, _, chain, orderly, fields, attempts, unreplaced, played⟩ := facts
  have woven := module_hostOf ranked .default
  have releases := Module.weave_releasesInOrder listed chain orderly woven rfl
  have ordered := chain.ordered orderly woven rfl played
  exact ⟨t, listed, chain, orderly, fields, releases, _,
    attempts.drainsInOrder releases ⟨ordered, unreplaced⟩⟩

open Sample Machine Program in
/-- Without any one of the conditions the containers are not released in order, nor are they if a
constructor is called again in the course of the release, or if two fields share a container. -/
theorem Module.weave_misreleases :
    (∀ condition, ∃ t ∈ (disorderly condition).1.types,
      (disorderly condition).1.ReleaseChain (disorderly condition).2 t ∧
      (∀ other, other ≠ condition →
        (disorderly condition).1.Meets (disorderly condition).2 t other) ∧
      ¬(hostOf (disorderly condition).1 (disorderly condition).2).ReleasesInOrder
        (disorderly condition).2 t.definitionName
        ((disorderly condition).1.trackingFields (disorderly condition).2 t) fun _ _ _ => True) ∧
    (∃ t ∈ storing.types, storing.ReleaseChain .default t ∧ storing.Orderly .default t ∧
      ¬(hostOf storing .default).ReleasesInOrder .default t.definitionName
        (storing.trackingFields .default t) (KeptApart (storing.trackingFields .default t))) ∧
    ∃ t ∈ ranked.types, ranked.ReleaseChain .default t ∧ ranked.Orderly .default t ∧
      ¬(hostOf ranked .default).ReleasesInOrder .default t.definitionName
        (ranked.trackingFields .default t) (Unreplaced (ranked.trackingFields .default t)) := by
  refine ⟨fun condition => ?_, ?_, ?_⟩
  · obtain ⟨t, listed, _, chain, meets, misreleases⟩ := disorderly_missesOnly condition
    exact ⟨t, listed, chain, meets, misreleases.not_releasesInOrder trivial⟩
  · have facts : ∃ t ∈ storing.types, t.definitionName ∈ lowerNames ∧
        storing.ReleaseChain .default t ∧ storing.Orderly .default t ∧
        (hostOf storing .default).Misreleases .default t.definitionName
          (storing.trackingFields .default t)
          ((hostOf storing .default).constructed t.definitionName 100) (releaseFirst .default) 1
          100 ∧
        Constructs storing t := by
      decide +kernel
    obtain ⟨t, listed, _, chain, orderly, misreleases, played⟩ := facts
    have ordered := chain.ordered orderly (module_hostOf storing .default) rfl played
    exact ⟨t, listed, chain, orderly, misreleases.not_releasesInOrder ordered⟩
  · have facts : ∃ t ∈ ranked.types, t.definitionName ∈ lowerNames ∧
        ranked.ReleaseChain .default t ∧ ranked.Orderly .default t ∧
        (hostOf ranked .default).Misreleases .default t.definitionName
          (ranked.trackingFields .default t) aliased (releaseFirst .default) 1 100 ∧
        Unreplaced (ranked.trackingFields .default t) 1 aliased.heap
          ((hostOf ranked .default).passed aliased (.invoke (releaseFirst .default)) 100) := by
      decide +kernel
    obtain ⟨t, listed, _, chain, orderly, misreleases, unreplaced⟩ := facts
    exact ⟨t, listed, chain, orderly, misreleases.not_releasesInOrder unreplaced⟩

end ReleaseWeaver
