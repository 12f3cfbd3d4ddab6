import ReleaseWeaver.Proofs.Commands.Safety
import ReleaseWeaver.Proofs.Tracking.ReleaseOrder

/-
  The release of command targets. Where a release of an object returns, it still does in the woven
  module, and the values of its commands are released after what the teardown has done before. A
  getter that gives null stops this, for its release is a call on null; and so does whatever else
  keeps a release on the way from returning. Main statement: `Module.weave_releasesCommands`.
-/

namespace ReleaseWeaver

namespace Machine

/-! ## Releases of an object -/

/-- A release of an object, by name or as a dispatched call of the disposal contract's method. -/
inductive Request.Releases (m : Module) (config : Config) (o : Nat) : Request → Prop where
  | byName : Releases m config o (.callByName (.object o) config.releaseMethod [])
  | through {c} : c.ReleasesThrough config o →
      m.dispatchesTo config.disposalContract.name config.releaseMethod = true →
      Releases m config o (.invoke c)

theorem Request.Releases.startsAt {p : Program} {config : Config} {o : Nat} {object : Object}
    {h : Heap} {request : Request} (releases : request.Releases p.module config o)
    (there : h.get? o = some object) :
    request.StartsAt p object.className config.releaseMethod (.object o) h := by
  intro callee found
  cases releases with
  | byName =>
    show p.callOn ⟨h, 0⟩ [] (.object o) config.releaseMethod [] = _
    rw [Program.callOn, Heap.object, there]
    dsimp only
    rw [show ([] : List Value).length = 0 from rfl, found]
  | @through c through dispatches =>
    obtain ⟨isVirtual, hasThis, declaring, named, plain, receiver⟩ := through
    have dispatched : p.isVirtualMethod c.method = true := by
      rw [Program.isVirtualMethod, declaring, named, plain]
      exact dispatches
    have start := Program.startClass_dispatched (h := h) isVirtual hasThis dispatched
      (by rw [receiver]; rfl) there
    show p.invoke ⟨h, 0⟩ [] c = _
    rw [Program.invoke, Program.callee, start]
    dsimp only
    rw [named, plain, show ([] : List TypeRef).length = 0 from rfl, found, receiver]

end Machine

/-- The disposal contract is an imported type with a method that releases. -/
theorem Collaborators.exists_contract {m : Module} {config : Config} {c : Collaborators}
    (found : resolve m config = .ok c) : ∃ t, m.findType? config.disposalContract.name = some t ∧
      t.isLocal = false ∧
      (t.methods.find? fun d => d.answersTo config.releaseMethod 0).isSome = true := by
  unfold resolve at found
  obtain ⟨t, contract, found⟩ := bind_eq_ok found
  obtain ⟨_, releases, _⟩ := bind_eq_ok found
  unfold Module.resolveSymbol at contract
  obtain ⟨_, _, contract⟩ := bind_eq_ok contract
  split at contract
  · next t' known =>
    split at contract
    · next imported =>
      cases contract
      refine ⟨t, known, by rw [TypeDef.isLocal, eq_of_beq imported]; rfl, ?_⟩
      obtain ⟨d, listed, fits, _⟩ := requireMethod_eq_ok releases
      rw [isRelease, Bool.and_eq_true, Bool.and_eq_true, List.isEmpty_iff] at fits
      refine List.find?_isSome.2 ⟨d, listed, ?_⟩
      rw [MethodDef.answersTo, fits.1.1, fits.1.2]
      rfl
    · cases contract
  · cases contract

/-- Whether releases through the contract are dispatched is settled by the contract itself. -/
theorem Weave.Completed.dispatchesTo_woven {c : WeaveContext} {m : Module} {outcome : WeaveOutcome}
    (completed : Completed c m outcome) :
    outcome.module.dispatchesTo c.config.disposalContract.name c.config.releaseMethod =
      m.dispatchesTo c.config.disposalContract.name c.config.releaseMethod := by
  obtain ⟨t, known, imported, answers⟩ :=
    Collaborators.exists_contract completed.weavable.bound.collaborators
  obtain ⟨d, first⟩ := Option.isSome_iff_exists.1 answers
  have known' := completed.findType?_imported known imported
  rw [Module.dispatchesTo, Module.dispatchesTo, Machine.Program.isVirtualIn, known',
    Machine.Program.isVirtualIn, known]
  dsimp only
  rw [first]

/-- A release of an object of the class runs a teardown, its own or an inherited one: the body that
the search comes to is that of the teardown which a type declares. -/
structure Machine.Program.TearsDown (p : Machine.Program) (d : Disposal) (className : String)
    (key : MethodKey) (own : MethodDef) (b : Body) : Prop where
  found : p.lookup className d.release 0 = some (.body key own b)
  declared : p.module.declared? d key.owner = some (key, own)

/-- The code of a teardown still returns: a release ran it and asked for nothing that weaving answers
otherwise, or it returns with all that it calls woven. -/
def Machine.Program.StillReturns (p : Machine.Program) (config : Config) (h : Machine.Heap)
    (request : Machine.Request) (code : Machine.Frame) (h' : Machine.Heap)
    (result : Option Machine.Value) : Prop :=
  p.SettlesBy (p.Agrees (p.woven config)) h request h' result ∨
    (p.woven config).Finishes ⟨⟨h, 0⟩, .frame code, []⟩ h' result

/-- A release of an object of a released command target, where the code of the teardown that it runs
still returns, returns in the woven module, and has released the values of the target's commands one
after the other, unless the code of the target's own teardown is left early. Neither the target nor
a type above, up to the one whose teardown runs, may be a released handle target, and the getters
that are called there give values that are not null and can be released. -/
theorem Module.weave_releasesCommands {p : Machine.Program} {config : Config}
    {collaborators : Collaborators} {h h₁ : Machine.Heap} {o : Nat} {object : Machine.Object}
    {request : Machine.Request} {result : Option Machine.Value} {key : MethodKey} {own : MethodDef}
    {b : Body} {good : Machine.Heap → Prop}
    (bound : Collaborators.resolve p.module config = .ok collaborators)
    (released : p.module.isReleased config .releaseCommands object.className = true)
    (there : h.get? o = some object) (releases : request.Releases p.module config o)
    (tearsDown : p.TearsDown ⟨collaborators.contract, config.releaseMethod⟩ object.className key
      own b)
    (returns : p.StillReturns config h request (.start key own b [.object o]) h₁ result)
    (still : good h₁)
    (releasable : p.Releasable config collaborators.contractRelease (.object o) good
      object.className key.owner) :
    (p.woven config).ReturnsReleased collaborators.contractRelease (.object o) good
      (p.module.releasedCommands config object.className) h request
      (key.owner = object.className → ¬(p.woven config).LeavesEarly
        ⟨⟨h, 0⟩, .frame (.start key own b [.object o]), []⟩) := by
  obtain ⟨c, rfl, completed⟩ | ⟨⟨e, failed⟩, _⟩ := Weave.weave_completed p.module config
  · obtain rfl : c.collaborators = collaborators :=
      Except.ok.inj (completed.weavable.bound.collaborators.symm.trans bound)
    obtain ⟨names, given, run, _⟩ := Weave.preparation_start c p.module
    obtain ⟨k, finds⟩ := Machine.Program.lookup_eq_body_iff.1 tearsDown.found
    have finishes : (p.woven c.config).Finishes _ h₁ result :=
      returns.elim (·.agreed (Machine.Program.perform_of_startsAt (releases.startsAt there)
        tearsDown.found)) id
    have releases' : request.Releases (p.woven c.config).module c.config o := by
      cases releases with
      | byName => exact .byName
      | through through dispatches =>
        exact .through through (completed.dispatchesTo_woven.trans dispatches)
    obtain ⟨j, other, reached, past, returns⟩ :=
      Machine.Program.exists_returnsReleased completed run finishes still
        (releases'.startsAt there) finds tearsDown.declared releasable
    -- The target has a teardown of its own in the end, so the release comes to it.
    cases j with
    | zero =>
      obtain rfl := Option.some.inj ((above_self reached).symm.trans reached)
      exact returns
    | succ j =>
      exact absurd (past 0 (Nat.zero_lt_succ j) _ (above_self reached))
        (Machine.Program.not_goesPast_released completed released)
  · rw [isReleased, WeaveOutcome.entries, failed] at released
    cases released

/-! ## Runs that are carried out -/

namespace Machine

instance : DecidableEq Heap := fun h h' =>
  decidable_of_iff (h.objects = h'.objects)
    ⟨fun same => congrArg Heap.mk same, fun same => congrArg Heap.objects same⟩

/-- The code at work asks for nothing. -/
def State.Quiet (s : State) : Prop :=
  match s.active with
  | .frame f => match f.current? with
    | some (.newobj _) | some (.invoke ..) => False
    | _ => True
  | .native (.ask ..) => False
  | _ => True

instance (s : State) : Decidable s.Quiet := by
  unfold State.Quiet
  split
  · split <;> infer_instance
  · infer_instance
  · infer_instance

namespace Program

variable {p p' : Program} {h h' h'' : Heap} {request : Request} {count : Nat} {m : Memory}
  {result result' : Option Value} {s : State}

/-- All programs agree on what asks for nothing. -/
theorem agrees_of_quiet (quiet : s.Quiet) : p.Agrees p' s := by
  intro m caller request asks
  cases asks with
  | construct here executes =>
    cases executes
    simp only [State.Quiet, here] at quiet
  | invoke here executes =>
    cases executes
    simp only [State.Quiet, here] at quiet
  | native => cases quiet

/-- What is there when a request has returned, and its result, if it returns within so many steps. -/
def answer? (p : Program) (h : Heap) (request : Request) (count : Nat) :
    Option (Memory × Option Value) :=
  match p.runFor count (p.perform ⟨h, 0⟩ [] request) with
  | .finished m (.ok result) => some (m, result)
  | _ => none

theorem passes_of_answer? (answer : p.answer? h request count = some (m, result)) :
    p.Passes (p.perform ⟨h, 0⟩ [] request) (p.trace count (p.perform ⟨h, 0⟩ [] request))
      (.finished m (.ok result)) := by
  have passes := p.passes_trace count (p.perform ⟨h, 0⟩ [] request)
  unfold answer? at answer
  split at answer
  · next ended =>
    cases answer
    rwa [ended] at passes
  · cases answer

theorem settlesBy_of_answer? {kind : State → Prop}
    (answer : p.answer? h request count = some (m, result)) (inside : m.steps ≤ p.stepLimit)
    (kinds : ∀ s ∈ p.trace count (p.perform ⟨h, 0⟩ [] request), kind s) :
    p.SettlesBy kind h request m.heap result :=
  ⟨_, m.steps, (passes_of_answer? answer).limited m.steps inside (Nat.le_refl _), kinds⟩

theorem settles_of_answer? (answer : p.answer? h request count = some (m, result))
    (inside : m.steps ≤ p.stepLimit) : p.Settles h request m.heap result :=
  settlesBy_of_answer? answer inside fun _ _ => trivial

end Program

theorem Heap.exists_of_isReleased {h : Heap} {v : Value} (released : h.isReleased v = .ok true) :
    ∃ n < h.objects.size, v = .object (n + 1) := by
  unfold isReleased at released
  obtain ⟨⟨n, o⟩, there, _⟩ := bind_eq_ok released
  unfold object at there
  split at there
  · next n =>
    cases n with
    | zero => cases there
    | succ n =>
      split at there
      · next here => exact ⟨n, (Array.getElem?_eq_some_iff.1 here).1, rfl⟩
      · cases there
  · cases there
  · cases there

instance (h h' : Heap) : Decidable (h.KeepsReleased h') :=
  decidable_of_iff (∀ n < h.objects.size, h.isReleased (.object (n + 1)) = .ok true →
      h'.isReleased (.object (n + 1)) = .ok true) <| by
    constructor
    · intro each v released
      obtain ⟨n, inside, rfl⟩ := Heap.exists_of_isReleased released
      exact each n inside released
    · exact fun keeps n _ => keeps _

namespace Program

variable {p : Program} {release getter : MethodRef} {this : Value} {heaps : List Heap} {count : Nat}

/-- In these heaps the getter gives a value whose release leaves it released and takes back no
other, all within so many steps. -/
def ReleasesWithin (p : Program) (release : MethodRef) (this : Value) (heaps : List Heap)
    (count : Nat) (getter : MethodRef) : Prop :=
  getter.params = [] ∧ getter.returns.isSome = true ∧ ∀ h ∈ heaps,
    ∃ got ∈ p.answer? h (.invoke (.on getter this false)) count, got.1.steps ≤ p.stepLimit ∧
      ∃ v ∈ got.2, v ≠ .null ∧
        ∃ done ∈ p.answer? got.1.heap (.invoke (.on release v true)) count,
          done.1.steps ≤ p.stepLimit ∧ done.1.heap ∈ heaps ∧
          done.1.heap.isReleased v = .ok true ∧ h.KeepsReleased done.1.heap

instance : Decidable (p.ReleasesWithin release this heaps count getter) :=
  inferInstanceAs (Decidable (_ ∧ _ ∧ ∀ h ∈ heaps, _))

theorem ReleasesWithin.releases (within : p.ReleasesWithin release this heaps count getter) :
    p.Releases release this (· ∈ heaps) getter := by
  obtain ⟨plain, gives, each⟩ := within
  refine ⟨plain, gives, fun h start => ?_⟩
  obtain ⟨⟨m, result⟩, got, inside, v, rfl, solid, ⟨m', result'⟩, done, inside', still, _⟩ :=
    each h start
  exact ⟨v, m.heap, m'.heap, result', solid, settles_of_answer? got inside,
    settles_of_answer? done inside', still⟩

theorem ReleasesWithin.lasts (within : p.ReleasesWithin release this heaps count getter) :
    p.Lasts release this (· ∈ heaps) getter := by
  obtain ⟨_, _, each⟩ := within
  intro h v h₁ h₂ result start gets released
  obtain ⟨⟨m, _⟩, got, inside, v', rfl, _, ⟨m', _⟩, done, inside', _, marked, keeps⟩ := each h start
  obtain ⟨rfl, same⟩ := gets.unique (settles_of_answer? got inside)
  cases same
  obtain ⟨rfl, _⟩ := released.unique (settles_of_answer? done inside')
  exact ⟨marked, keeps⟩

theorem releasable_of_within {config : Config} {name other : String} {k : Nat}
    (reached : p.module.above k name = some other)
    (each : ∀ x ∈ p.module.firstAbove (k + 1) name,
      p.module.isReleased config .trackHandles x = false ∧
      ∀ getter ∈ p.module.releasedCommands config x,
        (p.woven config).ReleasesWithin release this heaps count getter) :
    p.Releasable config release this (· ∈ heaps) name other where
  untracked x upTo := (each x (upTo.mem_firstAbove reached)).1
  releases x upTo getter listed := ((each x (upTo.mem_firstAbove reached)).2 getter listed).releases

/-- The teardown that a release of an object of the class runs. -/
def teardown? (p : Program) (d : Disposal) (className : String) : Option MethodKey :=
  match p.lookup className d.release 0 with
  | some (.body key _ _) =>
    if (p.module.declared? d key.owner).map Prod.fst = some key then some key else none
  | _ => none

theorem tearsDown_of_teardown? {d : Disposal} {className : String} {key : MethodKey}
    (runs : p.teardown? d className = some key) : ∃ own b, p.TearsDown d className key own b := by
  unfold teardown? at runs
  split at runs
  · next key' own b found =>
    split at runs
    · next declares =>
      cases runs
      obtain ⟨⟨_, own'⟩, declared, rfl⟩ := Option.map_eq_some_iff.1 declares
      obtain ⟨_, finds⟩ := lookup_eq_body_iff.1 found
      obtain rfl : own = own' := Option.some.inj
        (finds.answers.found.symm.trans (Module.declared?_eq_some.1 declared).2)
      exact ⟨own, b, found, declared⟩
    · cases runs
  · cases runs

end Program

end Machine

namespace Sample

open Machine (Program Heap Object Value)

/-- Where an object says whether it is released. -/
def isDisposed (name : String) : FieldRef :=
  { declaring := model name, name := "IsDisposed", type := boolean }

/-- Code by which an object says that it is released. -/
def sayDisposed (name : String) : List Instr := [.ldthis, .ldint 1, .stfld (isDisposed name)]

/-- A class of commands with this release. -/
def buildCommand (name : String) (release : List Instr) : Building Unit := do
  let command ← Model.startType { ns := modelsNamespace, name, base := some object,
                                  interfaces := [commandCapability] } objectConstructor
  let _ ← command.teardown release

/-- A class whose commands are released, so far with these properties. -/
def startTarget (name : String) (base : TypeRef) (properties : List String) : Building Model := do
  let target ← Model.startType { ns := modelsNamespace, name, base := some base,
                                 interfaces := [disposable, commandCapability] }
    (constructorOf base [])
  target.mark releaseCommandsMarker
  for name in properties do
    let _ ← target.autoProperty name commandCapability
  return target

/-- An object of a model. -/
def objectOf (name : String) (fields : List (String × Value)) : Object :=
  { className := (model name).definitionName, fields }

/-- What a property holds. -/
def held (property : String) (o : Nat) : String × Value :=
  ("<" ++ property ++ ">k__BackingField", .object o)

/-- A class without a teardown whose command is released, below one with a teardown. -/
def inheriting : Program where
  module := builtIn importedModule do
    buildCommand "Command" (sayDisposed "Command")
    let panel ← Model.startType { ns := modelsNamespace, name := "Panel", base := some object,
                                  interfaces := [disposable] } objectConstructor
    let _ ← panel.teardown []
    let _ ← startTarget "Board" (model "Panel") ["Refresh"]
  natives := Machine.Reactive.natives

/-- An object and its command, which is not released, or is. -/
def unreleased : Heap := ⟨#[objectOf "Board" [held "Refresh" 2], objectOf "Command" []]⟩

def boards : List Heap := [unreleased, unreleased.modify (·.setField "IsDisposed" (.int 1)) 2]

end Sample

open Sample Machine Program in
/-- A release of an object whose class has no teardown of its own. -/
theorem Module.weave_releasesCommands_inheriting :
    ∃ collaborators h₁ h' values result,
      Collaborators.resolve inheriting.module .default = .ok collaborators ∧
      (inheriting.woven .default).Settles unreleased (.callByName (.object 1) "Dispose" []) h'
        result ∧
      (inheriting.woven .default).ReleasesEach collaborators.contractRelease (.object 1) h₁
        (inheriting.module.releasedCommands .default "Sweep.Tests.Models.Board") values h' ∧
      values.length = 1 ∧ ∀ v ∈ values, h'.isReleased v = .ok true := by
  have runs : ∃ collaborators ∈ (Collaborators.resolve inheriting.module .default).toOption,
      inheriting.teardown? ⟨collaborators.contract, "Dispose"⟩ "Sweep.Tests.Models.Board" =
        some ⟨"Sweep.Tests.Models.Panel", 0⟩ ∧
      ∀ x ∈ inheriting.module.firstAbove 2 "Sweep.Tests.Models.Board",
        inheriting.module.isReleased .default .trackHandles x = false ∧
        ∀ getter ∈ inheriting.module.releasedCommands .default x,
          (inheriting.woven .default).ReleasesWithin collaborators.contractRelease (.object 1)
            boards 100 getter := by
    decide +kernel
  have target : inheriting.module.isReleased .default .releaseCommands "Sweep.Tests.Models.Board" =
        true ∧
      (inheriting.module.releasedCommands .default "Sweep.Tests.Models.Board").length = 1 ∧
      inheriting.module.above 1 "Sweep.Tests.Models.Board" = some "Sweep.Tests.Models.Panel" := by
    decide +kernel
  have made : ∃ object ∈ unreleased.get? 1, object.className = "Sweep.Tests.Models.Board" := by
    decide +kernel
  have returns : ∃ answer ∈ inheriting.answer? unreleased (.callByName (.object 1) "Dispose" []) 100,
      answer.1.steps ≤ inheriting.stepLimit ∧ answer.1.heap ∈ boards ∧
      ∀ s ∈ inheriting.trace 100 (inheriting.perform ⟨unreleased, 0⟩ []
        (.callByName (.object 1) "Dispose" [])), s.Quiet := by
    decide +kernel
  obtain ⟨collaborators, found, teardown, within⟩ := runs
  obtain ⟨released, one, reached⟩ := target
  obtain ⟨object, there, classed⟩ := made
  obtain ⟨⟨m, result⟩, answer, inside, still, quiet⟩ := returns
  have bound := eq_ok_of_toOption found
  obtain ⟨own, b, tearsDown⟩ := tearsDown_of_teardown? teardown
  rw [← classed] at tearsDown released reached within one ⊢
  obtain ⟨h₁, h', values, result', settles, _, all⟩ :=
    Module.weave_releasesCommands bound released there .byName tearsDown
      (.inl (settlesBy_of_answer? answer inside fun s passed => agrees_of_quiet (quiet s passed)))
      still
      (releasable_of_within reached within)
  obtain ⟨each, _, last⟩ := all fun same => absurd (same.trans classed) (by decide +kernel)
  refine ⟨collaborators, h₁, h', values, result', bound, settles, each, each.length.trans one,
    last fun getter listed => ?_⟩
  have here : object.className ∈ inheriting.module.firstAbove 2 object.className := by
    rw [classed]
    decide +kernel
  exact ((within _ here).2 getter listed).lasts

/-! ## How releases break -/

namespace Machine.Program

/-- The request, made with nothing counted, returns within the limit. -/
def ReturnsTo (p : Program) (h : Heap) (request : Request) (h' : Heap) (result : Option Value) :
    Prop :=
  ∃ states steps, p.Returns ⟨h, 0⟩ [] request states ⟨h', steps⟩ result

/-- Whenever the getter is called in these heaps, it returns, and so does the release of what it
gives if that is not null. -/
def Provides (p : Program) (release : MethodRef) (this : Value) (good : Heap → Prop)
    (getter : MethodRef) : Prop :=
  ∀ h, good h → ∃ v h₁, p.ReturnsTo h (.invoke (.on getter this false)) h₁ (some v) ∧ good h₁ ∧
    (v ≠ .null → ∃ h₂ result, p.ReturnsTo h₁ (.invoke (.on release v true)) h₂ result ∧ good h₂)

/-- Each release of an object of a released command target that returns, where the getters and the
releases of their values do so too, returns in the woven module, and in the end all values that the
getters give at first are released or null. -/
def KeepsReleases (p : Program) (config : Config) : Prop :=
  ∀ collaborators h o object request key own b h₁ result (good : Heap → Prop),
    Collaborators.resolve p.module config = .ok collaborators → h.get? o = some object →
    p.module.isReleased config .releaseCommands object.className = true →
    request.Releases p.module config o →
    p.TearsDown ⟨collaborators.contract, config.releaseMethod⟩ object.className key own b →
    p.ReturnsTo h request h₁ result → good h → good h₁ →
    (∀ getter ∈ p.module.releasedCommands config object.className,
      p.Provides collaborators.contractRelease (.object o) good getter) →
    ∃ h' result', (p.woven config).ReturnsTo h request h' result' ∧
      ∀ getter ∈ p.module.releasedCommands config object.className, ∀ v h₂,
        p.ReturnsTo h (.invoke (.on getter (.object o) false)) h₂ (some v) → v ≠ .null →
          h'.isReleased v = .ok true

variable {p : Program} {h h' : Heap} {request : Request} {count : Nat} {m : Memory}
  {result : Option Value} {release getter : MethodRef} {this : Value} {heaps : List Heap}

theorem returnsTo_of_answer? (answer : p.answer? h request count = some (m, result)) :
    p.ReturnsTo h request m.heap result :=
  ⟨_, m.steps, .of_finished (passes_of_answer? answer)⟩

/-- The request ends within so many steps. -/
def Ends (p : Program) (h : Heap) (request : Request) (count : Nat) : Prop :=
  match p.runFor count (p.perform ⟨h, 0⟩ [] request) with
  | .finished .. => True
  | .running _ => False

instance : Decidable (p.Ends h request count) := by
  unfold Ends
  split <;> infer_instance

theorem ReturnsTo.answer? (returns : p.ReturnsTo h request h' result)
    (ends : p.Ends h request count) : ∃ steps, p.answer? h request count =
      some (⟨h', steps⟩, result) := by
  obtain ⟨states, steps, returns⟩ := returns
  have passes := p.passes_trace count (p.perform ⟨h, 0⟩ [] request)
  refine ⟨steps, ?_⟩
  unfold Ends at ends
  unfold Program.answer?
  cases ended : p.runFor count (p.perform ⟨h, 0⟩ [] request) with
  | running s =>
    rw [ended] at ends
    cases ends
  | finished m outcome =>
    rw [ended] at passes
    obtain ⟨rfl, rfl⟩ := passes.unique returns.passes
    rfl

/-- In these heaps the getter and the release of what it gives return within so many steps. -/
def ProvidesWithin (p : Program) (release : MethodRef) (this : Value) (heaps : List Heap)
    (count : Nat) (getter : MethodRef) : Prop :=
  ∀ h ∈ heaps, ∃ got ∈ p.answer? h (.invoke (.on getter this false)) count,
    got.1.heap ∈ heaps ∧ ∃ v ∈ got.2, v ≠ .null →
      ∃ done ∈ p.answer? got.1.heap (.invoke (.on release v true)) count, done.1.heap ∈ heaps

instance : Decidable (p.ProvidesWithin release this heaps count getter) :=
  inferInstanceAs (Decidable (∀ h ∈ heaps, _))

theorem ProvidesWithin.provides (within : p.ProvidesWithin release this heaps count getter) :
    p.Provides release this (· ∈ heaps) getter := by
  intro h start
  obtain ⟨⟨m, result⟩, got, still, v, rfl, each⟩ := within h start
  refine ⟨v, m.heap, returnsTo_of_answer? got, still, fun solid => ?_⟩
  obtain ⟨⟨m', result'⟩, done, still'⟩ := each solid
  exact ⟨m'.heap, result', returnsTo_of_answer? done, still'⟩

/-- A release of the object by name that should be kept, and in the woven module does not return or
leaves a value which is not released; all in so many steps. -/
def Breaks (p : Program) (config : Config) (c : Collaborators) (h : Heap) (o : Nat)
    (heaps : List Heap) (count : Nat) : Prop :=
  let request := .callByName (.object o) config.releaseMethod []
  ∃ object ∈ h.get? o,
    p.module.isReleased config .releaseCommands object.className = true ∧
    (p.teardown? ⟨c.contract, config.releaseMethod⟩ object.className).isSome = true ∧
    h ∈ heaps ∧ (∃ answer ∈ p.answer? h request count, answer.1.heap ∈ heaps) ∧
    (∀ getter ∈ p.module.releasedCommands config object.className,
      p.ProvidesWithin c.contractRelease (.object o) heaps count getter) ∧
    (p.woven config).Ends h request count ∧
    ∀ answer ∈ (p.woven config).answer? h request count,
      ∃ getter ∈ p.module.releasedCommands config object.className,
        ∃ got ∈ p.answer? h (.invoke (.on getter (.object o) false)) count,
          ∃ v ∈ got.2, v ≠ .null ∧ answer.1.heap.isReleased v ≠ .ok true

instance (config : Config) (c : Collaborators) (o : Nat) :
    Decidable (p.Breaks config c h o heaps count) := by
  unfold Breaks
  infer_instance

theorem Breaks.not_keepsReleases {config : Config} {c : Collaborators} {o : Nat}
    (bound : Collaborators.resolve p.module config = .ok c)
    (breaks : p.Breaks config c h o heaps count) : ¬p.KeepsReleases config := by
  intro keeps
  obtain ⟨object, there, released, teardown, start, ⟨⟨m, result⟩, answer, still⟩, provides, ends,
    misses⟩ := breaks
  obtain ⟨key, runs⟩ := Option.isSome_iff_exists.1 teardown
  obtain ⟨own, b, tearsDown⟩ := tearsDown_of_teardown? runs
  obtain ⟨h', result', returns, all⟩ := keeps c h o object _ key own b m.heap result (· ∈ heaps)
    bound there released .byName tearsDown (returnsTo_of_answer? answer) start still
    fun getter listed => (provides getter listed).provides
  obtain ⟨steps, answer'⟩ := returns.answer? ends
  obtain ⟨getter, listed, ⟨m', _⟩, got, v, rfl, solid, unreleased⟩ := misses _ answer'
  exact unreleased (all getter listed v m'.heap (returnsTo_of_answer? got) solid)

end Machine.Program

namespace Sample

open Machine (Program Heap)

/-- What may keep a release from returning, or from releasing the values. -/
inductive Mishap where
  /-- A property is null. -/
  | unassigned
  /-- A getter takes an index. -/
  | indexed
  /-- A property holds an object of the class itself, whose own property is null. -/
  | nested
  /-- The class tracks handles too. -/
  | tracked
  /-- The base class is a target as well, and a property of it is null. -/
  | above
  /-- The teardown calls that of such a base class. -/
  | calling
  /-- The teardown returns early. -/
  | early
  /-- A command does not say that it is released. -/
  | silent
  /-- The release of a command takes back that of another. -/
  | reviving
  /-- There are no steps for more than the teardown, or one release. -/
  | limited

namespace Mishap

def building : Mishap → Building Unit
  | unassigned => do
    let board ← startTarget "Board" object ["Refresh"]
    let _ ← board.teardown []
  | indexed => do
    buildCommand "Command" (sayDisposed "Command")
    let board ← startTarget "Board" object ["Refresh"]
    board.modifyType fun t =>
      { t with methods := t.methods.map fun d => { d with params := [int64] } }
    let _ ← board.teardown []
  | nested => do
    let board ← startTarget "Board" object ["Refresh"]
    let _ ← board.teardown (sayDisposed "Board")
  | tracked => do
    buildCommand "Command" (sayDisposed "Command")
    let board ← startTarget "Board" object ["Refresh"]
    board.mark trackHandlesMarker
    let _ ← board.constructor [] listen
    let _ ← board.teardown []
  | above => do
    buildCommand "Command" (sayDisposed "Command")
    let panel ← startTarget "Panel" object ["Refresh"]
    let _ ← panel.teardown []
    let _ ← startTarget "Board" (model "Panel") ["Save"]
  | calling => do
    buildCommand "Command" (sayDisposed "Command")
    let panel ← startTarget "Panel" object ["Refresh"]
    let _ ← panel.teardown []
    let board ← startTarget "Board" (model "Panel") ["Save"]
    let _ ← board.teardown [.ldthis, .call { declaring := model "Panel", name := "Dispose" }]
  | early => do
    buildCommand "Command" (sayDisposed "Command")
    let board ← startTarget "Board" object ["Refresh"]
    let _ ← board.teardown
      [.ldthis, .ldfld (isDisposed "Board"), .branch .whenFalse (.nth 5), .ret]
  | silent => do
    buildCommand "Command" []
    let board ← startTarget "Board" object ["Refresh"]
    let _ ← board.teardown []
  | reviving => do
    buildCommand "Command" (sayDisposed "Command")
    buildCommand "Reviver" ([.ldthis,
      .ldfld { declaring := model "Reviver", name := "Other", type := model "Command" },
      .ldint 0, .stfld (isDisposed "Command")] ++ sayDisposed "Reviver")
    let board ← startTarget "Board" object ["Refresh", "Save"]
    let _ ← board.teardown []
  | limited => do
    buildCommand "Command" (sayDisposed "Command")
    let board ← startTarget "Board" object ["Refresh"]
    let _ ← board.teardown []

def program (mishap : Mishap) : Program where
  module := builtIn importedModule mishap.building
  natives := Machine.Reactive.natives
  stepLimit := match mishap with
    | limited => 4
    | _ => 100000

/-- The board and what it refers to, at first. -/
def heap : Mishap → Heap
  | unassigned => ⟨#[objectOf "Board" []]⟩
  | nested => ⟨#[objectOf "Board" [held "Refresh" 2], objectOf "Board" []]⟩
  | above | calling => ⟨#[objectOf "Board" [held "Save" 2], objectOf "Command" []]⟩
  | early => ⟨#[objectOf "Board" [held "Refresh" 2, ("IsDisposed", .int 1)],
      objectOf "Command" []]⟩
  | reviving => ⟨#[objectOf "Board" [held "Refresh" 2, held "Save" 3], objectOf "Command" [],
      objectOf "Reviver" [("Other", .object 2)]]⟩
  | indexed | tracked | silent | limited => unreleased

/-- The heaps that differ in what is released. -/
def heaps (mishap : Mishap) : List Heap :=
  let say (n : Int64) (o : Nat) (h : Heap) := h.modify (·.setField "IsDisposed" (.int n)) o
  [mishap.heap, say 1 1 mishap.heap].flatMap fun h =>
    [h, say 1 3 (say 0 2 h)].flatMap fun h => [h, say 1 2 h]

theorem breaks (mishap : Mishap) :
    ∃ c ∈ (Collaborators.resolve mishap.program.module .default).toOption,
      mishap.program.Breaks .default c mishap.heap 1 mishap.heaps 100 := by
  cases mishap <;> decide +kernel

end Mishap

end Sample

open Sample in
/-- A release breaks, or leaves a value unreleased, by each of the mishaps alone. -/
theorem Module.weave_breaksReleases : ¬∃ mishap : Mishap, mishap.program.KeepsReleases .default := by
  rintro ⟨mishap, keeps⟩
  obtain ⟨c, found, breaks⟩ := mishap.breaks
  exact breaks.not_keepsReleases (eq_ok_of_toOption found) keeps

end ReleaseWeaver
