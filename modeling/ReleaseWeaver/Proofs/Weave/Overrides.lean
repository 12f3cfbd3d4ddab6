import ReleaseWeaver.Machine.Reactive
import ReleaseWeaver.Proofs.Machine.Dispatch
import ReleaseWeaver.Proofs.Machine.Exec
import ReleaseWeaver.Proofs.Weave.Delegation

/-
  Overrides at run time. What a run does to a module after an override has been added leaves every
  method findable, virtual where it was, and with the same call in front. So the override is what
  a dispatched call finds, as long as the call is dispatched; and what it calls first is the body
  of the teardown that it overrides, as long as there is one. Main statements: a virtual call
  through any type between the target and the owner of the overridden teardown runs the override,
  and the override runs the teardown of a local owner first.
-/

namespace ReleaseWeaver

/-- Changes of a method that no call notices: it is found by the same calls, it is virtual and has
a body where it did, and as a method other than a constructor it begins with the same call. -/
structure MethodDef.Retains (d d' : MethodDef) : Prop where
  name : d'.name = d.name
  params : d'.params = d.params
  returns : d'.returns = d.returns
  constructs : d'.isConstructor = d.isConstructor
  virtual : d.flags.isVirtual = true → d'.flags.isVirtual = true
  body : d.body.isSome = true → d'.body.isSome = true
  calls : d.isConstructor = false → ∀ call, d.baseCall? = some call → d'.baseCall? = some call

theorem MethodDef.Retains.refl (d : MethodDef) : d.Retains d :=
  ⟨rfl, rfl, rfl, rfl, id, id, fun _ _ => id⟩

theorem MethodDef.Retains.trans {d₁ d₂ d₃ : MethodDef} (first : d₁.Retains d₂)
    (second : d₂.Retains d₃) : d₁.Retains d₃ where
  name := second.name.trans first.name
  params := second.params.trans first.params
  returns := second.returns.trans first.returns
  constructs := second.constructs.trans first.constructs
  virtual := second.virtual ∘ first.virtual
  body := second.body ∘ first.body
  calls plain call := second.calls (first.constructs.trans plain) call ∘ first.calls plain call

theorem MethodDef.Retains.answersTo {d d' : MethodDef} (kept : d.Retains d') (name : String)
    (count : Nat) : d'.answersTo name count = d.answersTo name count := by
  rw [MethodDef.answersTo, MethodDef.answersTo, kept.name, kept.params]

theorem MethodDef.retains_openedIf (opens : Bool) (d : MethodDef) : d.Retains (d.openedIf opens) := by
  cases opens with
  | false => exact .refl d
  | true => exact ⟨rfl, rfl, rfl, Bool.or_false _, fun _ => Bool.or_true _, id, fun _ _ => id⟩

namespace Module

/-- Changes that leave the shapes alone and that no call of a method notices. -/
structure Retains (m m' : Module) : Prop where
  shapes : m'.shapes = m.shapes
  methods : ∀ key d, m.findMethod? key = some d → ∃ d', m'.findMethod? key = some d' ∧ d.Retains d'

theorem Retains.refl (m : Module) : m.Retains m := ⟨rfl, fun _ d found => ⟨d, found, .refl d⟩⟩

theorem Retains.trans {m₁ m₂ m₃ : Module} (first : m₁.Retains m₂) (second : m₂.Retains m₃) :
    m₁.Retains m₃ where
  shapes := second.shapes.trans first.shapes
  methods key d found := by
    obtain ⟨d', found', same⟩ := first.methods key d found
    obtain ⟨d'', found'', same'⟩ := second.methods key d' found'
    exact ⟨d'', found'', same.trans same'⟩

variable {m m' : Module} {d : Disposal} {t : TypeDef} {name : String} {key ancestor : MethodKey}

theorem Overriding.retains {inherited : MethodDef}
    (step : m.Overriding d name ancestor inherited m') : m.Retains m' where
  shapes := step.shapes
  methods key own found := by
    have old : key ≠ m.nextMethodKey name := by
      rintro rfl
      rw [findMethod?_nextMethodKey] at found
      cases found
    refine ⟨_, ?_, MethodDef.retains_openedIf (m.opens [ancestor] key) own⟩
    rw [step.methods, if_neg old, found, Option.map_some]

/-- The override is all that is added, and what is overridden is opened at most. -/
theorem Overriding.retains_of_same {inherited : MethodDef} {m'' : Module}
    (step : m.Overriding d name ancestor inherited m')
    (step' : m.Overriding d name ancestor inherited m'') : m'.Retains m'' where
  shapes := step'.shapes.trans step.shapes.symm
  methods key own found := ⟨own, by rw [step'.methods, ← step.methods, found], .refl own⟩

end Module

namespace Weave

open ReleaseWeaver.Module

variable {d : Disposal} {names : List String} {given : List (String × MethodKey)} {m m' : Module}
  {name : String} {ancestor : MethodKey} {c : WeaveContext} {outcome : WeaveOutcome}

theorem Preparation.retains (run : Preparation d names m given m') : m.Retains m' := by
  induction run with
  | done => exact .refl _
  | idle _ _ ih => exact ih
  | given _ step _ ih => exact step.retains.trans ih

theorem Completed.retains (completed : Completed c m outcome) :
    (start c m).Retains outcome.module where
  shapes := completed.keeps.shapes
  methods key own found := by
    have after := completed.findMethod? key
    rw [found, Option.map_some] at after
    refine ⟨_, after, rfl, rfl, rfl, rfl, id, fun body => ?_, fun plain call => ?_⟩
    · rw [MethodDef.rewritten, Option.isSome_map]
      exact body
    · exact MethodDef.baseCall?_rewritten c (front_inserted plain) straight_inserted

/-- An override of a run is added to a module that retains the first one, and the rest of the run
retains what it was added to. -/
theorem Preparation.retains_given (run : Preparation d names m given m')
    (listed : (name, ancestor) ∈ given) : ∃ before t, m.Retains before ∧
      before.findType? name = some t ∧
      before.planTeardown d t = .ok (.synthesize ancestor) ∧
      (before.ensureTeardown t (.synthesize ancestor)).1.Retains m' := by
  induction run with
  | done => cases listed
  | idle _ _ ih => exact ih listed
  | @given _ _ m _ given m' inherited after needed step run ih =>
    obtain same | later := List.mem_cons.1 listed
    · cases same
      obtain ⟨t, known, _⟩ := needed
      have planned := step.planned t known
      obtain ⟨inherited', step'⟩ := overriding_ensured known planned
      have same : (ancestor, inherited') = (ancestor, inherited) := step'.first.unique step.first
      cases same
      rw [ensured, known] at step'
      exact ⟨m, t, .refl m, known, planned, (step'.retains_of_same step).trans run.retains⟩
    · obtain ⟨before, t, retained, rest⟩ := ih later
      exact ⟨before, t, step.retains.trans retained, rest⟩

end Weave

/-! ## The override and what it overrides -/

namespace Module

variable {m m' : Module} {d : Disposal} {t : TypeDef} {ancestor : MethodKey}

instance (m : Module) (name : String) : Decidable (m.Owns name) :=
  decidable_of_iff ((m.findType? name).any TypeDef.isLocal = true) (Option.any_eq_true _ _)

theorem answersTo_of_isTeardown {method : MethodDef} (teardown : d.isTeardown method = true) :
    method.answersTo d.release 0 = true := by
  have plain := MethodDef.params_of_isTeardown teardown
  simp only [Disposal.isTeardown, Bool.and_eq_true] at teardown
  rw [MethodDef.answersTo, teardown.1.1.1, plain]
  rfl

/-- A teardown is called with its object and nothing else. -/
theorem refIn_of_isTeardown {method : MethodDef} (teardown : d.isTeardown method = true)
    (declaring : TypeRef) : (method.refIn declaring).name = d.release ∧
      (method.refIn declaring).params = [] ∧ (method.refIn declaring).hasThis = true := by
  have plain := MethodDef.params_of_isTeardown teardown
  simp only [Disposal.isTeardown, Bool.and_eq_true] at teardown
  exact ⟨eq_of_beq teardown.1.1.1, plain, teardown.2⟩

/-- A type sees what is above it under its own name. -/
theorem definitionName_refAbove {name other : String} {k : Nat}
    (there : m.above k name = some other) (strict : other ≠ name) :
    (m.refAbove name other).definitionName = other := by
  obtain ⟨u, resolved, named⟩ := Option.map_eq_some_iff.1 (resolve?_refAbove there strict)
  unfold resolve? at resolved
  split at resolved
  · cases resolved
  · rw [← (mem_of_findType? resolved).2, named]

/-- A target that was given an override, in a module that retains it. -/
structure Overrides (m : Module) (d : Disposal) (t : TypeDef) (ancestor : MethodKey)
    (after : Module) : Prop where
  listed : t ∈ m.types
  planned : m.planTeardown d t = .ok (.synthesize ancestor)
  kept : (m.ensureTeardown t (.synthesize ancestor)).1.Retains after

namespace Overrides

variable (overrides : m.Overrides d t ancestor m')

include overrides

theorem step : ∃ inherited, m.Overriding d t.definitionName ancestor inherited
    (m.ensureTeardown t (.synthesize ancestor)).1 := by
  have known := findType?_of_mem overrides.listed
  obtain ⟨inherited, step⟩ := overriding_ensured known overrides.planned
  rw [ensured, known] at step
  exact ⟨inherited, step⟩

theorem key_eq : (m.ensureTeardown t (.synthesize ancestor)).2 = m.nextMethodKey t.definitionName := by
  obtain ⟨_, step⟩ := overrides.step
  obtain ⟨_, _, _, declared, _⟩ := step.first
  obtain ⟨_, found⟩ := declared?_eq_some.1 declared
  obtain ⟨owner, known, _⟩ := findMethod?_eq_some.1 found
  simp only [ensureTeardown, known, found]

/-- What became of the override and of the teardown that it overrides. -/
theorem methods : ∃ inherited override own,
    m.findMethod? ancestor = some inherited ∧ d.isTeardown inherited = true ∧
      (∃ k, m.above k t.definitionName = some ancestor.owner) ∧ ancestor.owner ≠ t.definitionName ∧
      m'.findMethod? (m.nextMethodKey t.definitionName) = some override ∧
      (inherited.overrideVia (m.refAbove t.definitionName ancestor.owner)).Retains override ∧
      m'.findMethod? ancestor = some own ∧
      (inherited.openedIf (m.opens [ancestor] ancestor)).Retains own := by
  obtain ⟨inherited, step⟩ := overrides.step
  obtain ⟨k, a, there, declared, _⟩ := step.first
  obtain ⟨teardown, found⟩ := declared?_eq_some.1 declared
  have strict : a ≠ t.definitionName := by
    rintro rfl
    rw [step.absent] at declared
    cases declared
  have old : ancestor ≠ m.nextMethodKey t.definitionName := fun same =>
    strict (teardown.owned.symm.trans (congrArg MethodKey.owner same))
  have given := step.methods (m.nextMethodKey t.definitionName)
  have opened := step.methods ancestor
  rw [if_pos rfl] at given
  rw [if_neg old, found, Option.map_some] at opened
  obtain ⟨override, found', kept⟩ := overrides.kept.methods _ _ given
  obtain ⟨own, found'', kept'⟩ := overrides.kept.methods _ _ opened
  exact ⟨inherited, override, own, found, step.isTeardown, ⟨k, teardown.owned ▸ there⟩,
    teardown.owned ▸ strict, found', kept, found'', kept'⟩

/-- The override can be called, … -/
theorem override : ∃ override body,
    m'.findMethod? (m.nextMethodKey t.definitionName) = some override ∧
      override.answersTo d.release 0 = true ∧ override.flags.isVirtual = true ∧
      override.body = some body := by
  obtain ⟨inherited, override, _, _, teardown, _, _, added, kept, _⟩ := overrides.methods
  obtain ⟨body, hasBody⟩ := Option.isSome_iff_exists.1 (kept.body rfl)
  refine ⟨override, body, added, ?_, kept.virtual (Bool.or_true _), hasBody⟩
  rw [kept.answersTo]
  exact answersTo_of_isTeardown (isTeardown_overridingTeardown _ teardown)

/-- … and so can what it overrides, which is virtual if it is local or was virtual. -/
theorem overridden : ∃ own, m'.findMethod? ancestor = some own ∧ own.answersTo d.release 0 = true ∧
    (m.Owns ancestor.owner ∨
        (m.findMethod? ancestor).any (fun inherited => inherited.flags.isVirtual) = true →
      own.flags.isVirtual = true) := by
  obtain ⟨inherited, _, own, before, teardown, _, _, _, _, found, kept⟩ := overrides.methods
  refine ⟨own, found, ?_, fun opened => kept.virtual ?_⟩
  · rw [kept.answersTo]
    exact answersTo_of_isTeardown ((MethodDef.isTeardown_openedIf _ inherited).trans teardown)
  obtain ⟨owner, known, isLocal⟩ | already := opened
  · have opens : m.opens [ancestor] ancestor = true := by
      simp [opens, known, isLocal]
    rw [opens]
    exact Bool.or_true _
  · rw [before] at already
    exact (MethodDef.retains_openedIf _ inherited).virtual already

end Overrides

end Module

/-- What a run gives to a type is an override that the module retains in the end. -/
theorem Weave.Completed.overrides {d : Disposal} {names : List String}
    {given : List (String × MethodKey)} {m : Module} {name : String} {ancestor : MethodKey}
    {c : WeaveContext} {outcome : WeaveOutcome} (completed : Completed c m outcome)
    (run : Preparation d names m given (start c m)) (listed : (name, ancestor) ∈ given) :
    ∃ before t, m.Retains before ∧ before.findType? name = some t ∧
      before.Overrides d t ancestor outcome.module := by
  obtain ⟨before, t, retained, known, planned, kept⟩ := run.retains_given listed
  exact ⟨before, t, retained, known,
    ⟨(Module.mem_of_findType? known).1, planned, kept.trans completed.retains⟩⟩

namespace Machine.Program

open ReleaseWeaver.Module

variable {p : Program} {m : Module} {d : Disposal} {t : TypeDef} {ancestor : MethodKey}

/-- A virtual call of the release method on an object of the target, or of a type below it that
declares no method to answer it, runs the override: through the target always, and through any type
up to the owner of the overridden teardown if that owner is local or its teardown virtual. -/
theorem invoke_override (overrides : m.Overrides d t ancestor p.module) {memory : Memory}
    {callers : List Caller} {c : Call} {n : Nat} {o : Object} {i j k : Nat}
    (virtual : c.isVirtual = true) (hasThis : c.method.hasThis = true)
    (named : c.method.name = d.release) (plain : c.method.params = [])
    (receiver : c.args.head? = some (.object n)) (there : memory.heap.get? n = some o)
    (below : p.module.above i o.className = some t.definitionName)
    (upward : p.module.above j t.definitionName = some c.method.declaring.definitionName)
    (upTo : p.module.above k c.method.declaring.definitionName = some ancestor.owner)
    (inherits : ∀ q < i, ∀ b ∈ p.module.above q o.className, p.module.answering b d.release 0 = [])
    (sole : ∀ q ≤ j + k, ∀ b ∈ p.module.above q t.definitionName,
      p.module.answering b d.release 0 ⊆
        [(m.ensureTeardown t (.synthesize ancestor)).2, ancestor])
    (bare : ∀ q ≤ i, ∀ b ∈ p.module.above q o.className,
      p.natives (nativeName b d.release) = none)
    (opened : c.method.declaring.definitionName = t.definitionName ∨ m.Owns ancestor.owner ∨
      (m.findMethod? ancestor).any (fun inherited => inherited.flags.isVirtual) = true) :
    ∃ override body,
      p.module.findMethod? (m.ensureTeardown t (.synthesize ancestor)).2 = some override ∧
      override.body = some body ∧
      p.invoke memory callers c = .running ⟨memory,
        .frame (Frame.start (m.ensureTeardown t (.synthesize ancestor)).2 override body c.args),
        callers⟩ := by
  rw [overrides.key_eq] at sole ⊢
  obtain ⟨_, _, _, _, _, _, strict, _⟩ := overrides.methods
  obtain ⟨override, body, added, answers, overriding, hasBody⟩ := overrides.override
  obtain ⟨own, found, answers', overridden⟩ := overrides.overridden
  have here := above_self upward
  have onTarget : ∀ key ∈ p.module.answering t.definitionName d.release 0,
      key = m.nextMethodKey t.definitionName := by
    intro key listed
    have among := sole 0 (Nat.zero_le _) _ here listed
    simp only [List.mem_cons, List.not_mem_nil, or_false] at among
    obtain same | rfl := among
    · exact same
    · exact absurd (mem_answering.1 listed).1 strict
  have virtualKey {key : MethodKey} {x : MethodDef} (same : key = m.nextMethodKey t.definitionName)
      (there : p.module.findMethod? key = some x) : x.flags.isVirtual = true := by
    rw [same, added] at there
    exact Option.some.inj there ▸ overriding
  have dispatched : p.isVirtualMethod c.method = true := by
    rw [isVirtualMethod, named, plain]
    obtain same | opened := opened
    · rw [same]
      refine isVirtualIn_above here
        (List.ne_nil_of_mem (mem_answering.2 ⟨rfl, override, added, answers⟩))
        fun q bound b reached key listed x there => ?_
      obtain rfl := Nat.le_zero.1 bound
      rw [here] at reached
      cases reached
      exact virtualKey (onTarget key listed) there
    · refine isVirtualIn_above upTo
        (List.ne_nil_of_mem (mem_answering.2 ⟨rfl, own, found, answers'⟩))
        fun q bound b reached key listed x there => ?_
      have reached' : p.module.above (j + q) t.definitionName = some b := by
        rw [above_add, upward, Option.bind_some, reached]
      have among := sole (j + q) (by omega) b reached' listed
      simp only [List.mem_cons, List.not_mem_nil, or_false] at among
      obtain same | rfl := among
      · exact virtualKey same there
      · rw [found] at there
        exact Option.some.inj there ▸ overridden opened
  have start := startClass_dispatched virtual hasThis dispatched receiver there
  refine ⟨override, body, added, hasBody, invoke_body start ?_⟩
  rw [named, plain]
  exact lookup_eq_body below
    (fun q before b reached => ⟨bare q before.le b reached, inherits q before b reached⟩)
    (bare i (Nat.le_refl i) _ below) added answers hasBody onTarget

end Machine.Program

/-! ## An override that is reached, and one that is not -/

namespace Sample

open Machine

def disposal : Disposal := ⟨disposable, "Dispose"⟩

def modelNamed (name : String) (m : Module) : TypeDef :=
  (m.findType? (modelsNamespace ++ "." ++ name)).getD default

/-- What runs the module after the type got an override of the teardown. -/
def overridden (natives : String → Option NativeCode) (m : Module) (t : TypeDef)
    (ancestor : MethodKey) : Program :=
  { module := (m.ensureTeardown t (.synthesize ancestor)).1, natives }

theorem overrides_overridden {m : Module} {name : String} {ancestor : MethodKey}
    {natives : String → Option NativeCode}
    (known : (m.findType? (modelsNamespace ++ "." ++ name)).isSome = true)
    (planned : m.planTeardown disposal (modelNamed name m) = .ok (.synthesize ancestor)) :
    m.Overrides disposal (modelNamed name m) ancestor
      (overridden natives m (modelNamed name m) ancestor).module := by
  obtain ⟨t, found⟩ := Option.isSome_iff_exists.1 known
  have listed : modelNamed name m ∈ m.types := by
    rw [modelNamed, found]
    exact (Module.mem_of_findType? found).1
  exact ⟨listed, planned, .refl _⟩

/-- A virtual call of the release of the first object, through a type of that name. -/
def releaseThrough (declaring : TypeRef) : Call where
  method := { declaring, name := "Dispose" }
  args := [.object 1]
  isVirtual := true

/-- The memory with one object of a class. -/
def holding (className : String) : Memory := { heap := (({} : Heap).alloc { className }).1 }

/-- The method at whose first line a body is at work. -/
def entered? : Progress → Option MethodKey
  | .running ⟨_, .frame f, _⟩ => if f.position = 0 then some f.key else none
  | _ => none

/-- The failure on its way out of a run. -/
def failure? : Progress → Option ExecError
  | .running ⟨_, .failure e, _⟩ => some e
  | _ => none

/-- A class `Resource` with this teardown, and a class that extends it. -/
def heirOf (importedFrom : Option String) (teardown : MethodDef) : Module :=
  let resource : TypeDef := { ns := modelsNamespace, name := "Resource", importedFrom }
  match (Model.extending "Keeper" (Sample.model "Resource") objectConstructor).run
    (importType importedModule resource [teardown]) with
  | .ok _ m | .error _ m => m

end Sample

open Sample Machine Program in
theorem Machine.Program.invoke_override_leafBeforeMid :
    let m := leafBeforeMid
    let t := modelNamed "MidTrackedModel" m
    let ancestor : MethodKey := ⟨"Sweep.Tests.Models.TestModelBase", 1⟩
    let p := overridden Reactive.natives m t ancestor
    let memory := holding "Sweep.Tests.Models.LeafTrackedModel"
    let c := releaseThrough (Sample.model "TestModelBase")
    let key := (m.ensureTeardown t (.synthesize ancestor)).2
    key = ⟨"Sweep.Tests.Models.MidTrackedModel", 1⟩ ∧
    ∃ override body, p.module.findMethod? key = some override ∧ override.body = some body ∧
      p.invoke memory [] c =
        .running ⟨memory, .frame (Frame.start key override body c.args), []⟩ := by
  intro m t ancestor p memory c key
  have overrides : m.Overrides disposal t ancestor p.module :=
    overrides_overridden (by decide +kernel) (by decide +kernel)
  exact ⟨by decide +kernel, invoke_override overrides (i := 1) (j := 2) (k := 0) rfl rfl rfl rfl rfl
    rfl (by decide +kernel) (by decide +kernel) (by decide +kernel) (by decide +kernel)
    (by decide +kernel) (by decide +kernel) (.inr (.inr (by decide +kernel)))⟩

open Sample Machine Program in
/-- A call through an imported owner whose teardown is not virtual runs that teardown. -/
theorem Module.override_notReached :
    let m := heirOf (some "Sweep.Testing") { name := "Dispose", body := some (.ofInstrs [.ret]) }
    let t := modelNamed "Keeper" m
    let ancestor : MethodKey := ⟨"Sweep.Tests.Models.Resource", 0⟩
    let p := overridden Reactive.natives m t ancestor
    m.Overrides disposal t ancestor p.module ∧
      p.module.above 1 t.definitionName = some ancestor.owner ∧
      (∀ q ≤ 1, ∀ b ∈ p.module.above q t.definitionName,
        p.module.answering b disposal.release 0 ⊆
          [(m.ensureTeardown t (.synthesize ancestor)).2, ancestor]) ∧
      (∀ b ∈ p.module.above 0 t.definitionName, p.natives (nativeName b disposal.release) = none) ∧
      entered? (p.invoke (holding t.definitionName) [] (releaseThrough (Sample.model "Resource"))) =
        some ancestor ∧
      (m.ensureTeardown t (.synthesize ancestor)).2 ≠ ancestor := by
  intro m t ancestor p
  have overrides : m.Overrides disposal t ancestor p.module :=
    overrides_overridden (by decide +kernel) (by decide +kernel)
  exact ⟨overrides, by decide +kernel, by decide +kernel, by decide +kernel, by decide +kernel,
    by decide +kernel⟩

/-! ## What the override calls -/

namespace Machine.Program

open ReleaseWeaver.Module

variable {p : Program} {m : Module} {d : Disposal} {t : TypeDef} {ancestor : MethodKey}

/-- A body that begins with a call on its own object makes that call first. -/
theorem runFor_baseCall {key : MethodKey} {method : MethodDef} {b : Body} {call : MethodRef}
    (body : method.body = some b) (calls : method.baseCall? = some call)
    (hasThis : call.hasThis = true) (plain : call.params = []) {memory : Memory}
    (enough : memory.steps + 2 ≤ p.stepLimit) (callers : List Caller) (this : Value)
    (rest : List Value) :
    let started := Frame.start key method b (this :: rest)
    p.runFor 2 (.running ⟨memory, .frame started, callers⟩) =
      p.invoke { memory with steps := memory.steps + 2 }
        (.frame { started with position := 2 } call.returns.isSome :: callers)
        { method := call, args := [this], isVirtual := false } := by
  intro started
  obtain ⟨more, instrs⟩ : ∃ more, b.instrs = .ldarg 0 :: .invoke call false :: more := by
    unfold MethodDef.baseCall? at calls
    split at calls
    · next call' more begins =>
      cases calls
      rw [body] at begins
      exact ⟨more, Option.some.inj begins⟩
    · cases calls
  have line (f : Frame) (same : f.body = b) : f.current? = b.instrs[f.position]? := by
    rw [Frame.current?, same, Body.instrs, List.getElem?_map]
  have first : started.current? = some (.ldarg 0) := by
    rw [line started rfl, instrs]
    rfl
  have second : (started.continueWith [this]).current? = some (.invoke call false) := by
    rw [line (started.continueWith [this]) rfl, instrs]
    rfl
  have arity : call.arity = 1 := by
    rw [MethodRef.arity, hasThis, plain]
    rfl
  have loaded : p.step ⟨memory, .frame started, callers⟩ = .running
      ⟨{ memory with steps := memory.steps + 1 }, .frame (started.continueWith [this]), callers⟩ :=
    step_next first (by omega) rfl
  have called : p.step
      ⟨{ memory with steps := memory.steps + 1 }, .frame (started.continueWith [this]), callers⟩ =
        p.invoke { memory with steps := memory.steps + 2 }
          (.frame { started with position := 2 } call.returns.isSome :: callers)
          { method := call, args := [this], isVirtual := false } := by
    refine step_invoke second enough ?_
    rw [Frame.exec_invoke, arity]
    rfl
  rw [runFor, loaded, runFor, called]
  rfl

/-- The override of a local teardown calls a method that is found exactly if the teardown has a
body, and which is the teardown then; so it runs that body first. -/
theorem override_runsOverridden (overrides : m.Overrides d t ancestor p.module)
    (isLocal : m.Owns ancestor.owner)
    (bare : ∀ owner, m.Owns owner → ∀ name, p.natives (nativeName owner name) = none)
    (sole : ∀ key ∈ p.module.answering ancestor.owner d.release 0, key = ancestor) :
    ∃ override body call own,
      p.module.findMethod? (m.ensureTeardown t (.synthesize ancestor)).2 = some override ∧
      override.body = some body ∧ override.baseCall? = some call ∧
      p.module.findMethod? ancestor = some own ∧
      (∀ b, p.lookup call.declaring.definitionName call.name call.params.length =
        some (.body ancestor own b) ↔ own.body = some b) ∧
      ∀ b, own.body = some b → ∀ memory callers this rest, memory.steps + 2 ≤ p.stepLimit →
        let started :=
          Frame.start (m.ensureTeardown t (.synthesize ancestor)).2 override body (this :: rest)
        p.runFor 2 (.running ⟨memory, .frame started, callers⟩) =
          .running ⟨{ memory with steps := memory.steps + 2 },
            .frame (Frame.start ancestor own b [this]),
            .frame { started with position := 2 } own.returns.isSome :: callers⟩ := by
  rw [overrides.key_eq]
  obtain ⟨inherited, override, own, before, teardown, ⟨k, there⟩, strict, added, kept, found, kept'⟩ :=
    overrides.methods
  obtain ⟨body, hasBody⟩ := Option.isSome_iff_exists.1 (kept.body rfl)
  have calls := kept.calls
    (Weave.isConstructor_of_isTeardown (isTeardown_overridingTeardown _ teardown)) _
    (MethodDef.baseCall?_overrideVia inherited _)
  have leads := definitionName_refAbove there strict
  obtain ⟨named, plain, hasThis⟩ := refIn_of_isTeardown teardown
    (m.refAbove t.definitionName ancestor.owner)
  have same : own.returns = inherited.returns := kept'.returns
  have answers : own.answersTo d.release 0 = true := by
    rw [kept'.answersTo]
    exact answersTo_of_isTeardown ((MethodDef.isTeardown_openedIf _ inherited).trans teardown)
  have finds (b : Body) (hasBody : own.body = some b) :
      p.lookup ancestor.owner d.release 0 = some (.body ancestor own b) := by
    obtain ⟨u, known, _⟩ := findMethod?_eq_some.1 found
    exact lookup_eq_body (above_zero known) (fun j before => absurd before (Nat.not_lt_zero j))
      (bare ancestor.owner isLocal d.release) found answers hasBody sole
  refine ⟨override, body, _, own, added, hasBody, calls, found, fun b => ?_,
    fun b hasBody' memory callers this rest enough => ?_⟩
  · show p.lookup (m.refAbove t.definitionName ancestor.owner).definitionName _ _ = _ ↔ _
    rw [leads, named, plain]
    refine ⟨fun finds => ?_, finds b⟩
    obtain ⟨_, _, impossible, _⟩ | ⟨_, _, _, callee, hasBody⟩ := lookup_eq_some finds
    · cases impossible
    · cases callee
      exact (hasBody_iff.1 hasBody).2
  · intro started
    rw [runFor_baseCall hasBody calls hasThis plain enough callers this rest, same]
    refine invoke_body (startClass_static rfl) ?_
    show p.lookup (m.refAbove t.definitionName ancestor.owner).definitionName _ _ = _
    rw [leads, named, plain]
    exact finds b hasBody'

end Machine.Program

open Sample Machine Program in
theorem Machine.Program.override_runsOverridden_leafBeforeMid :
    let m := leafBeforeMid
    let t := modelNamed "MidTrackedModel" m
    let ancestor : MethodKey := ⟨"Sweep.Tests.Models.TestModelBase", 1⟩
    let p := overridden (fun _ => none) m t ancestor
    let key := (m.ensureTeardown t (.synthesize ancestor)).2
    (p.module.findMethod? ancestor).any MethodDef.hasBody = true ∧
      ∃ override body call own, p.module.findMethod? key = some override ∧
        override.body = some body ∧ override.baseCall? = some call ∧
        p.module.findMethod? ancestor = some own ∧
        (∀ b, p.lookup call.declaring.definitionName call.name call.params.length =
          some (.body ancestor own b) ↔ own.body = some b) ∧
        ∀ b, own.body = some b → ∀ memory callers this rest, memory.steps + 2 ≤ p.stepLimit →
          let started := Frame.start key override body (this :: rest)
          p.runFor 2 (.running ⟨memory, .frame started, callers⟩) =
            .running ⟨{ memory with steps := memory.steps + 2 },
              .frame (Frame.start ancestor own b [this]),
              .frame { started with position := 2 } own.returns.isSome :: callers⟩ := by
  intro m t ancestor p key
  have overrides : m.Overrides disposal t ancestor p.module :=
    overrides_overridden (by decide +kernel) (by decide +kernel)
  have isLocal : m.Owns ancestor.owner := by decide +kernel
  exact ⟨by decide +kernel, override_runsOverridden overrides isLocal (fun _ _ _ => rfl)
    (by decide +kernel)⟩

open Sample Machine Program in
/-- The override of a local teardown without a body finds nothing to call. -/
theorem Module.override_callsNothing :
    let m := heirOf none (abstractMethod "Dispose")
    let t := modelNamed "Keeper" m
    let ancestor : MethodKey := ⟨"Sweep.Tests.Models.Resource", 0⟩
    let p := overridden (fun _ => none) m t ancestor
    m.Overrides disposal t ancestor p.module ∧ m.Owns ancestor.owner ∧
      p.module.answering ancestor.owner disposal.release 0 = [ancestor] ∧
      failure? (p.runFor 2 (p.invoke (holding t.definitionName) [] (releaseThrough t.selfRef))) =
        some (.unresolvedMethod "System.Void Sweep.Tests.Models.Resource::Dispose()") := by
  intro m t ancestor p
  have overrides : m.Overrides disposal t ancestor p.module :=
    overrides_overridden (by decide +kernel) (by decide +kernel)
  exact ⟨overrides, by decide +kernel, by decide +kernel, by decide +kernel⟩

end ReleaseWeaver
