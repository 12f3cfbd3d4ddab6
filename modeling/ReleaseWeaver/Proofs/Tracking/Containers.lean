import ReleaseWeaver.Proofs.Tracking.Constructors
import ReleaseWeaver.Proofs.Tracking.Storing

/-
  The container that an object of a woven target gets. The tracking field of an object is stored
  as often as constructors of the target are entered on the object: once where the constructor
  calls no other one, be there loops in it or not, again for each constructor that it delegates
  to, and never if the constructor is inherited. Two targets of one chain whose tracking fields
  have one name store in the same place, and native code that passes over failures can enter a
  constructor without the store. After a single store the object has the same container as long
  as the construction lasts.
-/

namespace ReleaseWeaver

open Machine (Memory Program State Value)

namespace Module

variable {m : Module} {config : Config} {entry : TargetReport}

/-- The branches of the instance constructors of a type stay in their bodies. -/
def ConstructorsWithin (m : Module) (typeName : String) : Prop :=
  ∀ t ∈ m.findType? typeName, ∀ d ∈ t.methods, d.takesPrologue = true → ∀ b ∈ d.body, b.Bound

instance (m : Module) (typeName : String) : Decidable (m.ConstructorsWithin typeName) :=
  inferInstanceAs (Decidable (∀ t ∈ m.findType? typeName, ∀ d ∈ t.methods,
    d.takesPrologue = true → ∀ b ∈ d.body, b.Bound))

theorem ConstructorsWithin.bound {name : String} {key : MethodKey} {own : MethodDef} {b : Body}
    (within : m.ConstructorsWithin name) (found : m.findMethod? key = some own)
    (body : own.body = some b) (owned : key.owner = name) (takes : own.takesPrologue = true) :
    b.Bound := by
  obtain ⟨t, known, listed⟩ := mem_methods_of_findMethod? found
  exact within t (owned ▸ known) own listed takes b body

theorem Reserves.fronts {p : Program} (reserves : m.Reserves config entry)
    (within : m.ConstructorsWithin entry.typeName) (woven : p.module = (m.weave config).module) :
    p.Fronts (m.trackingFieldOf config entry.typeName)
      (p.module.isConstructorOf entry.typeName) := by
  obtain ⟨e, stopped⟩ | ⟨collaborators, capability, resolved, present, finished⟩ :=
    Weave.weave_cases m config
  · have reported := reserves.reported
    rw [stopped] at reported
    cases reported
  have params : collaborators.containerConstructor.params = [] := by
    obtain ⟨_, _, constructor, _, _, _, _, ⟨fits, makes⟩, _⟩ := Collaborators.resolve_eq_ok resolved
    simp only [Collaborators.isDefaultConstructor, Bool.and_eq_true, List.isEmpty_iff] at fits
    rw [makes]
    exact fits.2
  exact finished.fronts present rfl reserves.reported reserves.family reserves.released woven params
    (fun t known => (trackingFieldOf_of_known known).symm) reserves.alone.apart
    (fun _ _ _ => reserves.unused.body) fun _ _ _ => within.bound

end Module

namespace Machine

/-- Construction with so many arguments finds a constructor that the class declares. -/
def Program.findsOwn (p : Program) (className : String) (params : Nat) : Bool :=
  match p.lookup className constructorName params with
  | some (.body key _ _) => p.module.isConstructorOf className key
  | _ => false

/-- The number that the next object gets. -/
def Heap.next (h : Heap) : Nat := h.objects.size + 1

theorem Program.construct_of_findsOwn {p : Program} {className : String} {args : List Value}
    (own : p.findsOwn className args.length = true) (memory : Memory) :
    ∃ key d b, HasBody p.module key d b ∧ p.module.isConstructorOf className key = true ∧
      p.construct memory [] className args =
        .running ⟨{ memory with heap := (memory.heap.alloc { className }).1 },
          .frame (Frame.start key d b (.object memory.heap.next :: args)),
          [.constructing (.object memory.heap.next)]⟩ := by
  unfold findsOwn at own
  split at own
  · next key d b found =>
    obtain ⟨_, _, impossible, _⟩ | ⟨key', d', b', same, known⟩ := lookup_eq_some found
    · cases impossible
    · cases same
      refine ⟨key, d, b, known, own, ?_⟩
      rw [construct]
      dsimp only
      rw [found]
      rfl
  · cases own

end Machine

namespace Module

/-- A construction of a woven target stores the tracking field of an object as often as it enters
constructors of the target on the object. If it enters one on the new object, it stores once,
before that constructor goes on. -/
theorem weave_storesOnce {m : Module} {config : Config} {entry : TargetReport} {p : Program}
    {memory memory' : Memory} {args : List Value} {states : List State} {result : Option Value}
    (reserves : m.Reserves config entry) (within : m.ConstructorsWithin entry.typeName)
    (woven : p.module = (m.weave config).module)
    (passes : p.Passes (p.construct memory [] entry.typeName args) states
      (.finished memory' (.ok result))) :
    (p.Relays → ∀ o,
      states.countP (State.storesIn (m.trackingFieldOf config entry.typeName) o) =
        states.countP (State.enters (p.module.isConstructorOf entry.typeName) o)) ∧
    (p.findsOwn entry.typeName args.length = true →
      states.countP (State.enters (p.module.isConstructorOf entry.typeName) memory.heap.next) = 1 →
      p.MakesOnce (m.trackingFieldOf config entry.typeName)
        (p.module.isConstructorOf entry.typeName) memory.heap.next states memory' result) := by
  have fronts := reserves.fronts within woven
  refine ⟨fun relays => ?_, fun own once => ?_⟩
  · have request : p.Passes (p.perform memory [] (.construct entry.typeName args)) states
        (.finished memory' (.ok result)) := passes
    exact request.stores_eq_enters fronts relays
  · obtain ⟨key, d, b, known, constructs, start⟩ := Program.construct_of_findsOwn own memory
    rw [start] at passes
    exact passes.makesOnce fronts known constructs (Nat.le_of_eq once)

end Module

/-! ## Constructors that loop, delegate, and are inherited -/

namespace Sample

open Machine

/-- The constructor branches back once. -/
def loopingKeeper (target : Handle) : Module := built do
  let model ← startKeeper object objectConstructor
  let _ ← model.method MethodDef.constructor
    [.ldloc 0, .branch .whenTrue (.nth 6), .ldint 1, .stloc 0, .branch .always target,
      .ldthis, .call objectConstructor, .ret] [int64]
  let _ ← model.teardown []

/-- The constructor is the one of the base class. -/
def inheritingKeeper : Module := built do
  let base ← Model.extending "Parent" object objectConstructor
  let _ ← base.constructor [] []
  let model ← startKeeper (Sample.model "Parent") (constructorOf (Sample.model "Parent") [])
  let _ ← model.teardown []

/-- The constructor with an argument calls the one without. -/
def delegatingKeeper : Module := built do
  let model ← startKeeper object objectConstructor
  let _ ← model.constructor [] []
  let _ ← model.constructorCalling (constructorOf (Sample.model "Keeper") []) [int64] []
  let _ ← model.teardown []

/-- A marked class below one of the same name. -/
def twinKeeper : Module := built do
  let parent ← Model.startType
    { ns := "Sweep.Tests.Parents", name := "Keeper", base := some object,
      interfaces := [disposable] } objectConstructor
  parent.mark trackHandlesMarker
  let _ ← parent.constructor [] []
  let _ ← parent.teardown []
  let above ← parent.selfRef
  let model ← startKeeper above (constructorOf above [])
  let _ ← model.constructor [] []
  let _ ← model.teardown []

/-- The constructor takes an argument, so that without one the class is made by its base class. -/
def outgrownKeeper : Module := built do
  let base ← Model.extending "Parent" object objectConstructor
  let _ ← base.constructor [] []
  let model ← startKeeper (Sample.model "Parent") (constructorOf (Sample.model "Parent") [])
  let _ ← model.constructor [int64] []
  let _ ← model.teardown []

/-- Containers cannot be made. The constructor of every object also calls the one of a keeper, and
does not care whether it fails. -/
def heedlessNatives : String → Option NativeCode
  | "System.Object::.ctor" => some fun h args =>
    (h, .ask (.invoke ⟨constructorOf (Sample.model "Keeper") [int64], args ++ [.int 0], false⟩)
      fun h _ => Reactive.finish h)
  | "System.Reactive.Disposables.CompositeDisposable::.ctor" => some fun h _ =>
    (h, .done (.error .danglingObject))
  | name => Reactive.natives name

def heedlessHost (m : Module) : Program := { host m with natives := heedlessNatives }

theorem module_heedlessHost (m : Module) :
    (heedlessHost m).module = (m.weave Config.default).module := rfl

/-- Make an object and follow the construction to its end, for at most so many steps. -/
def made? (p : Program) (className : String) (args : List Value) (count : Nat) :
    Option (List State × Memory × Option Value) :=
  let start := p.construct {} [] className args
  match p.runFor count start with
  | .finished m (.ok result) => some (p.trace count start, m, result)
  | _ => none

theorem exists_made {p : Program} {className : String} {args : List Value} {count : Nat}
    {check : List State × Memory × Option Value → Bool}
    (found : (made? p className args count).any check = true) : ∃ states m result,
      p.Passes (p.construct {} [] className args) states (.finished m (.ok result)) ∧
        check (states, m, result) = true := by
  cases made : made? p className args count with
  | none =>
    rw [made] at found
    cases found
  | some r =>
    rw [made] at found
    unfold made? at made
    dsimp only at made
    split at made
    · next m result last =>
      cases made
      have passes := p.passes_trace count (p.construct {} [] className args)
      rw [last] at passes
      exact ⟨_, m, result, passes, found⟩
    · cases made

theorem exists_made_with {p : Program} {className : String} {args : List Value}
    {P : List State → Prop} [DecidablePred P] (count : Nat)
    (found : (made? p className args count).any (fun (states, _) => decide (P states)) = true) :
    ∃ states m result, p.Passes (p.construct {} [] className args) states
      (.finished m (.ok result)) ∧ P states := by
  obtain ⟨states, m, result, passes, check⟩ := exists_made found
  exact ⟨states, m, result, passes, of_decide_eq_true check⟩

def trackingField : String := "$SweepTrackerKeeper"

end Sample

open Sample Machine in
theorem Module.weave_storesOnce_loopingKeeper :
    ∃ states memory result,
      (host (loopingKeeper (.nth 1))).Passes
        ((host (loopingKeeper (.nth 1))).construct {} [] keeperName [])
        states (.finished memory (.ok result)) ∧
      states.countP (State.storesIn trackingField 1) = 1 ∧
      (host (loopingKeeper (.nth 1))).MakesOnce trackingField
        ((host (loopingKeeper (.nth 1))).module.isConstructorOf keeperName) 1 states memory
        result ∧
      memory.heap.Has trackingField 1 (.object 2) := by
  have reserves : (loopingKeeper (.nth 1)).Reserves Config.default (keeperEntry 0) := by
    decide +kernel
  have within : (loopingKeeper (.nth 1)).ConstructorsWithin keeperName := by decide +kernel
  have own : (host (loopingKeeper (.nth 1))).findsOwn keeperName 0 = true := by decide +kernel
  have field : (loopingKeeper (.nth 1)).trackingFieldOf Config.default keeperName =
      trackingField := by decide +kernel
  have made : (made? (host (loopingKeeper (.nth 1))) keeperName [] 20).any
      (fun (states, memory, _) => states.countP (State.enters
          ((host (loopingKeeper (.nth 1))).module.isConstructorOf keeperName) 1) = 1 ∧
        (memory.heap.get? 1).map (·.field trackingField) = some (.object 2)) = true := by
    decide +kernel
  obtain ⟨states, memory, result, passes, check⟩ := exists_made made
  obtain ⟨entered, holds⟩ := of_decide_eq_true check
  obtain ⟨stores, makes⟩ := weave_storesOnce reserves within (module_host _) passes
  refine ⟨states, memory, result, passes, ?_, ?_, Option.map_eq_some_iff.1 holds⟩
  · exact field ▸ (stores (Program.relays_of_library rfl) 1).trans entered
  · exact field ▸ makes own entered

open Sample Machine in
/-- An inherited constructor stores no container. A constructor that calls another one stores two,
and so does a constructor with a branch into the prologue, and one that calls the constructor of a
target of the same name. Where native code passes over the failure of a constructor that it calls,
none is stored although a constructor is entered. -/
theorem Module.weave_storesNoneOrTwo :
    (inheritingKeeper.Reserves Config.default { keeperEntry 0 with constructors := 0 } ∧
      inheritingKeeper.ConstructorsWithin keeperName ∧
      ∃ states memory result,
        (host inheritingKeeper).Passes ((host inheritingKeeper).construct {} [] keeperName [])
          states (.finished memory (.ok result)) ∧
        states.countP (State.storesIn trackingField 1) = 0) ∧
    (delegatingKeeper.Reserves Config.default { keeperEntry 0 with constructors := 2 } ∧
      delegatingKeeper.ConstructorsWithin keeperName ∧
      (host delegatingKeeper).findsOwn keeperName 1 = true ∧
      ∃ states memory result,
        (host delegatingKeeper).Passes
          ((host delegatingKeeper).construct {} [] keeperName [.int 0])
          states (.finished memory (.ok result)) ∧
        states.countP (State.storesIn trackingField 1) = 2) ∧
    ((loopingKeeper (.nth 9)).Reserves Config.default (keeperEntry 0) ∧
      (host (loopingKeeper (.nth 9))).findsOwn keeperName 0 = true ∧
      ∃ states memory result,
        (host (loopingKeeper (.nth 9))).Passes
          ((host (loopingKeeper (.nth 9))).construct {} [] keeperName [])
          states (.finished memory (.ok result)) ∧
        states.countP (State.storesIn trackingField 1) = 2) ∧
    (twinKeeper.Equips Config.default (keeperEntry 0) ∧
      twinKeeper.ConstructorsWithin keeperName ∧
      (host twinKeeper).findsOwn keeperName 0 = true ∧
      ∃ states memory result,
        (host twinKeeper).Passes ((host twinKeeper).construct {} [] keeperName [])
          states (.finished memory (.ok result)) ∧
        states.countP
          (State.enters ((host twinKeeper).module.isConstructorOf keeperName) 1) = 1 ∧
        states.countP (State.storesIn trackingField 1) = 2) ∧
    outgrownKeeper.Reserves Config.default (keeperEntry 0) ∧
      outgrownKeeper.ConstructorsWithin keeperName ∧
      (heedlessHost outgrownKeeper).module = (outgrownKeeper.weave Config.default).module ∧
      ∃ states memory result,
        (heedlessHost outgrownKeeper).Passes
          ((heedlessHost outgrownKeeper).construct {} [] keeperName [])
          states (.finished memory (.ok result)) ∧
        states.countP
          (State.enters ((heedlessHost outgrownKeeper).module.isConstructorOf keeperName) 1) = 1 ∧
        states.countP (State.storesIn trackingField 1) = 0 := by
  exact ⟨⟨by decide +kernel, by decide +kernel, exists_made_with 30 (by decide +kernel)⟩,
    ⟨by decide +kernel, by decide +kernel, by decide +kernel,
      exists_made_with 30 (by decide +kernel)⟩,
    ⟨by decide +kernel, by decide +kernel, exists_made_with 30 (by decide +kernel)⟩,
    ⟨by decide +kernel, by decide +kernel, by decide +kernel,
      exists_made_with 30 (by decide +kernel)⟩,
    by decide +kernel, by decide +kernel, module_heedlessHost _,
    exists_made_with 30 (by decide +kernel)⟩

end ReleaseWeaver
