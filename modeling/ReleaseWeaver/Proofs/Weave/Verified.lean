import ReleaseWeaver.Proofs.Weave.Bindings
import ReleaseWeaver.Proofs.Weave.Passes
import ReleaseWeaver.Sample.Scenario

/-
  Handle weaving keeps a module verifiable. The override, the prologue, the registrations and the
  release are each neutral on the stack where they go, so every body of the module stays well
  stacked through the preparation and the handle pass. Main statement: a module that passes the
  stack check passes it after a run, however the run ends, if no command marker is there and the
  container's release method is an instance method without a result.
-/

namespace ReleaseWeaver

open Instr

/-! ## The runs of a pass -/

/-- What the woven code counts on in its collaborators. -/
structure Collaborators.Fit (c : Collaborators) : Prop where
  constructor : c.containerConstructor.params = []
  helperStatic : c.helper.hasThis = false
  helperParams : c.helper.params.length = 2
  helperReturns : c.helper.returns.isSome = true
  releaseThis : c.containerRelease.hasThis = true
  releaseParams : c.containerRelease.params = []
  releaseReturns : c.containerRelease.returns = none

variable {r : Bool}

theorem straight_prologue (field : FieldRef) (constructor : MethodRef) :
    ∀ i ∈ prologue field constructor, i.Straight :=
  straight_behindThis ⟨rfl, rfl, rfl⟩ ⟨rfl, rfl, rfl⟩

theorem straight_registration (field : FieldRef) (helper : MethodRef) :
    ∀ i ∈ registration field helper, i.Straight :=
  straight_behindThis ⟨rfl, rfl, rfl⟩ ⟨rfl, rfl, rfl⟩

theorem straight_releaseField (field : FieldRef) (release : MethodRef) :
    ∀ i ∈ releaseField field release, i.Straight :=
  straight_behindThis ⟨rfl, rfl, rfl⟩ ⟨rfl, rfl, rfl⟩

theorem neutral_prologue (field : FieldRef) {constructor : MethodRef}
    (params : constructor.params = []) (n : Nat) : Neutral r (prologue field constructor) n :=
  neutral_behindThis_iff.2 (by simp [depthAfter, pops, pushes, params])

theorem neutral_registration (field : FieldRef) {helper : MethodRef}
    (static : helper.hasThis = false) (params : helper.params.length = 2)
    (returns : helper.returns.isSome = true) (n : Nat) :
    Neutral r (registration field helper) (n + 1) :=
  neutral_behindThis_iff.2
    (by simp [call, depthAfter, pops, pushes, MethodRef.arity, static, params, returns])

theorem neutral_releaseField (field : FieldRef) {release : MethodRef}
    (this : release.hasThis = true) (params : release.params = []) (returns : release.returns = none)
    (n : Nat) : Neutral r (releaseField field release) n :=
  neutral_behindThis_iff.2
    (by simp [callvirt, depthAfter, pops, pushes, MethodRef.arity, this, params, returns])

/-! ## Methods -/

namespace MethodDef

variable {d : MethodDef} {c : WeaveContext}

theorem WellStacked.withPrologue (typed : d.WellStacked) (field : FieldRef)
    {constructor : MethodRef} (params : constructor.params = []) :
    (d.withPrologue (prologue field constructor)).WellStacked := by
  unfold MethodDef.withPrologue
  split
  · intro b body
    obtain ⟨b₀, body₀, rfl⟩ := Option.map_eq_some_iff.1 body
    exact (typed b₀ body₀).insertAt_zero (by simp [prologue]) (straight_prologue field constructor)
      (neutral_prologue field params 0)
  · exact typed

theorem WellStacked.registered (typed : d.WellStacked) (fit : c.collaborators.Fit)
    (field : FieldRef) : (d.registered c field).WellStacked := by
  intro b body
  obtain ⟨b₀, body₀, rfl⟩ := Option.map_eq_some_iff.1 body
  refine Body.registered_induction (fun b => b.WellStacked d.returns.isSome)
    (typed b₀ body₀) fun b' h i p typed' _ call line => ?_
  obtain ⟨method, isVirtual, rfl, contract, _⟩ := isHandleCall_iff.1 call
  have one : (Instr.invoke method isVirtual).pushes = 1 := by
    cases returns : method.returns with
    | none =>
      rw [returns] at contract
      cases contract
    | some t => rw [pushes, returns]; rfl
  obtain ⟨b'', inserted, typed''⟩ := typed'.insertAfter (by simp [registration])
    (straight_registration field c.collaborators.helper)
    (neutral_registration field fit.helperStatic fit.helperParams fit.helperReturns)
    (List.mem_of_getElem? line) rfl one
  rw [Body.insertAfter, Body.position?_eq_some.2 ⟨_, line⟩] at inserted
  cases inserted
  exact typed''

theorem WellStacked.released {run : List Instr} (typed : d.WellStacked) (filled : run ≠ [])
    (straight : ∀ i ∈ run, i.Straight) (neutral : ∀ n, Neutral d.returns.isSome run n) :
    (d.released run).WellStacked := by
  intro b body
  obtain ⟨b₀, body₀, rfl⟩ := Option.map_eq_some_iff.1 body
  cases final : b₀.finalExit? with
  | none =>
    rw [Body.released, final]
    exact typed b₀ body₀
  | some exit =>
    obtain ⟨b', inserted, typed'⟩ :=
      (typed b₀ body₀).insertBeforeExit filled straight neutral final
    rw [Body.released, final]
    dsimp only
    rw [inserted]
    exact typed'

/-- The override of a parameterless instance method passes the check. -/
theorem wellStacked_overriding {inherited : MethodDef} {baseCall : MethodRef}
    (this : baseCall.hasThis = true) (params : baseCall.params = [])
    (returns : baseCall.returns = inherited.returns) :
    (Module.overridingTeardown inherited baseCall).WellStacked := by
  intro b body
  have lines : b.lines = [(.nth 1, .ldthis), (.nth 2, .call baseCall), (.nth 3, .ret)] := by
    cases body
    rfl
  have unbranched : ∀ l ∈ b.lines, l.2.target? = none := by
    rw [lines]
    exact forall_mem_three rfl rfl rfl
  have depthCall : (Instr.call baseCall).depthAfter inherited.returns.isSome 1 =
      inherited.returns.isSome.toNat := by
    simp [depthAfter, call, pops, pushes, MethodRef.arity, this, params, returns]
  let depth : Handle → Option Nat := fun h =>
    if h = .nth 1 then some 0 else if h = .nth 2 then some 1
    else if h = .nth 3 then some inherited.returns.isSome.toNat else none
  refine ⟨⟨fun l listed t target => ?_, fun l last => ?_⟩, depth,
    ⟨⟨(.nth 1, .ldthis), by rw [lines]; rfl, rfl⟩, fun l listed n known => ?_,
      fun l listed t target => ?_, ?_⟩⟩
  · rw [unbranched l listed] at target
    cases target
  · rw [lines] at last
    cases last
    rfl
  · rw [lines] at listed
    simp only [List.mem_cons, List.not_mem_nil, or_false] at listed
    obtain rfl | rfl | rfl := listed <;> cases known
    · exact ⟨Nat.zero_le _, fun ret => absurd ret (by decide)⟩
    · exact ⟨by simp [call, pops, MethodRef.arity, this, params],
        fun ret => absurd ret (by simp [call, isRet])⟩
    · exact ⟨Nat.le_refl _, fun _ => rfl⟩
  · rw [unbranched l listed] at target
    cases target
  · rw [lines]
    refine .cons_cons (fun _ n known => ?_) (.cons_cons (fun _ n known => ?_) (.singleton _))
    · cases known
      rfl
    · cases known
      exact (congrArg some depthCall).symm

end MethodDef

/-! ## Modules -/

namespace Module

/-- The bodies of the module's own types are well stacked. -/
def WellStacked (m : Module) : Prop :=
  ∀ key d, m.Owns key.owner → m.findMethod? key = some d → d.WellStacked

variable {m m' : Module} {c : WeaveContext}

theorem WellStacked.of_map (typed : m.WellStacked) (shapes : m'.shapes = m.shapes)
    {g : MethodKey → MethodDef → MethodDef}
    (each : ∀ key, m'.findMethod? key = (m.findMethod? key).map (g key))
    (kept : ∀ key d, d.WellStacked → (g key d).WellStacked) : m'.WellStacked := by
  intro key d own found
  rw [each] at found
  obtain ⟨d₀, found₀, rfl⟩ := Option.map_eq_some_iff.1 found
  exact kept key d₀ (typed key d₀ ((owns_of_shapes shapes).1 own) found₀)

theorem WellStacked.instrumented (typed : m.WellStacked) (fit : c.collaborators.Fit)
    (target : Target) (t : TypeDef) : (m.instrumented c target t).WellStacked := by
  have field : (m.withField t.definitionName (c.trackingField t)).WellStacked :=
    typed.of_map (g := fun _ d => d) (shapes_withField m _ _)
      (fun key => by rw [findMethod?_withField, Option.map_id']) fun _ _ kept => kept
  have constructors := field.of_map (shapes_instrumentConstructors _ target.typeName
      (t.fieldRef (c.trackingField t)) c.collaborators.containerConstructor)
    (findMethod?_instrumentConstructors _ _ _ _) fun key d typed => by
      split
      · exact typed.withPrologue _ fit.constructor
      · exact typed
  have all (keys : List MethodKey) {m' : Module} (typed : m'.WellStacked) :
      (m'.registerAll c (t.fieldRef (c.trackingField t)) keys).WellStacked := by
    induction keys generalizing m' with
    | nil => exact typed
    | cons key rest ih =>
      refine ih (typed.of_map (shapes_modifyMethod m' key _)
        (findMethod?_modifyMethod m' key _) fun key' d typed => ?_)
      split
      · exact typed.registered fit _
      · exact typed
  exact all _ constructors

theorem WellStacked.ensured (typed : m.WellStacked) {d : Disposal} {typeName : String}
    {plan : TeardownPlan} {t : TypeDef} (known : m.findType? typeName = some t)
    (fits : plan.Fits m d typeName) : (m.ensured typeName plan).1.WellStacked := by
  have named : t.definitionName = typeName := (mem_of_findType? known).2
  cases fits with
  | existing => exact typed
  | @synthesize ancestor owner inherited known' found teardown =>
    have result : (m.ensured typeName (.synthesize ancestor)).1 =
        m.synthesizeTeardown t owner ancestor inherited := by
      rw [Module.ensured, known]
      simp only [ensureTeardown, Option.getD_some, known', found]
    intro key d own found'
    have own' : m.Owns key.owner := (owns_of_shapes (shapes_ensureTeardown m _ _)).1 own
    rw [result, findMethod?_synthesizeTeardown (by rw [named]; exact known)] at found'
    obtain ⟨d₀, found₀, rfl⟩ := Option.map_eq_some_iff.1 found'
    have typed₀ : d₀.WellStacked := by
      split at found₀
      · cases found₀
        simp only [Disposal.isTeardown, Bool.and_eq_true, Bool.not_eq_true'] at teardown
        exact MethodDef.wellStacked_overriding (by simp [baseCall, TypeDef.methodRef, teardown])
          (by simpa [baseCall, TypeDef.methodRef] using teardown.1.1.2) rfl
      · exact typed key d₀ own' found₀
    split
    · exact typed₀
    · exact typed₀

theorem WellStacked.trackTarget (typed : m.WellStacked) (fit : c.collaborators.Fit)
    {target : Target} {t : TypeDef} {plan : TeardownPlan}
    (known : m.findType? target.typeName = some t)
    (planned : Weave.requiredPlan c t m = .ok plan) :
    (m.trackTarget c target t plan).WellStacked := by
  obtain ⟨t', known', _⟩ := findType?_of_shapes (shapes_instrumented c target t m) known
  have ensured := (typed.instrumented fit target t).ensured known'
    (Weave.fits_instrumented known planned)
  unfold Module.trackTarget
  generalize (m.instrumented c target t).ensured target.typeName plan = result at ensured ⊢
  refine ensured.of_map (shapes_modifyMethod _ _ _) (findMethod?_releaseIn _ _ _)
    fun key d typed => ?_
  split
  · exact typed.released (by simp [releaseField]) (straight_releaseField _ _)
      (neutral_releaseField _ fit.releaseThis fit.releaseParams fit.releaseReturns)
  · exact typed

theorem WellStacked.prepared (typed : m.WellStacked) (d : Disposal) (targets : List Target) :
    (Weave.prepareTeardowns d targets m).1.WellStacked :=
  prepareTeardowns_induction _ typed fun _ _ _ typed known planned =>
    typed.ensured known (fits_of_planTeardown (mem_of_findType? known).1 planned)

theorem WellStacked.trackPass (typed : m.WellStacked) (fit : c.collaborators.Fit)
    {targets : List Target} {entries : List TargetReport} {r : Option WeaveError}
    (pass : Weave.TrackPass c targets m entries r m') : m'.WellStacked := by
  induction pass with
  | done => exact typed
  | refused _ _ _ ih => exact ih typed
  | woven known planned _ _ ih => exact ih (typed.trackTarget fit known planned)
  | clash => exact typed

end Module

/-! ## The collaborators -/

namespace Collaborators

theorem fit_of_resolve {m : Module} {config : Config} {c : Collaborators}
    (found : resolve m config = .ok c) (this : c.containerRelease.hasThis = true)
    (returns : c.containerRelease.returns = none) : c.Fit := by
  obtain ⟨constructor, static, params, value, releaseParams⟩ := shapes_of_resolve found
  exact ⟨constructor, static, params, value, this, releaseParams, returns⟩

end Collaborators

/-- Handle weaving keeps a module verifiable, however the run ends. -/
theorem Module.verify_weave {m : Module} {config : Config} {c : Collaborators}
    (verified : m.verify = .ok ())
    (noCommands : (MarkerTable.collect m config.markers).hasFamily .releaseCommands = false)
    (resolved : Collaborators.resolve m config = .ok c)
    (this : c.containerRelease.hasThis = true) (returns : c.containerRelease.returns = none) :
    (m.weave config).module.verify = .ok () := by
  have fit := Collaborators.fit_of_resolve resolved this returns
  have typed : m.WellStacked := verify_iff_wellStacked.1 verified
  obtain ⟨e, stopped⟩ | ⟨c', capability, resolved', present, finished⟩ := Weave.weave_cases m config
  · rw [stopped]
    exact verified
  · rw [resolved] at resolved'
    cases resolved'
    have none : capability = none := by
      cases capability with
      | none => rfl
      | some t =>
        rw [present.1 rfl] at noCommands
        cases noCommands
    refine verify_iff_wellStacked.2 ?_
    have start := typed.prepared (WeaveContext.disposal ⟨config, c, MarkerTable.collect m config.markers⟩)
      (Weave.allTargets m (MarkerTable.collect m config.markers) capability)
    generalize m.weave config = outcome at finished
    cases finished with
    | clash pass => exact start.trackPass fit pass
    | woven pass _ same _ =>
      rw [same none]
      exact start.trackPass fit pass

/-- A handle target whose teardown branches to its final exit. -/
def Sample.earlyExit : Module :=
  match Scenario.earlyExitTeardown.run baseModule with
  | .ok _ m => m
  | .error _ m => m

theorem Module.verify_weave_earlyExit :
    (Sample.earlyExit.weave Config.default).module.verify = .ok () := by
  have verified : Sample.earlyExit.verify = .ok () := by decide +kernel
  have noCommands : (MarkerTable.collect Sample.earlyExit Config.default.markers).hasFamily
      .releaseCommands = false := by decide +kernel
  have release : (match Collaborators.resolve Sample.earlyExit Config.default with
      | .ok c => c.containerRelease.hasThis && c.containerRelease.returns.isNone
      | .error _ => false) = true := by decide +kernel
  cases resolved : Collaborators.resolve Sample.earlyExit Config.default with
  | error e =>
    rw [resolved] at release
    cases release
  | ok c =>
    rw [resolved] at release
    obtain ⟨this, returns⟩ := Bool.and_eq_true_iff.1 release
    exact verify_weave verified noCommands resolved this (Option.isNone_iff_eq_none.1 returns)

/-- The scenario can be built on the base models, and its module passes the check. -/
def Sample.passes (scenario : Building Unit) : Bool :=
  match scenario.run baseModule with
  | .ok _ m => m.verify.isOk
  | .error _ _ => false

/-- The named scenarios make modules that have a check to keep. -/
theorem Sample.passes_named {name : String} {scenario : Building Unit}
    (known : Scenario.named? name = some scenario) : passes scenario = true := by
  have table : ∀ entry ∈ Scenario.table, passes entry.2 = true := by decide +kernel
  obtain ⟨before, behind, split, -⟩ := List.lookup_eq_some_iff.1 known
  exact table (name, scenario) (by simp [split])

end ReleaseWeaver
