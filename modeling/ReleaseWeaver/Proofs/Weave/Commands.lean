import ReleaseWeaver.Proofs.Weave.Settled
import ReleaseWeaver.Proofs.Weave.Verified

/-
  Command weaving and the stack check. The release of a property is neutral on the stack exactly
  when its getter takes as many values as it returns; nothing checks that a getter does. Main
  statement: a module that passes the stack check passes it after a run, however the run ends, if
  every getter that the command pass calls is balanced in this way. A static getter is not, and
  the woven module fails the check.
-/

namespace ReleaseWeaver

open Instr

/-- The getter takes as many values from the stack as it puts on it. -/
def MethodRef.Balanced (getter : MethodRef) : Prop := getter.arity = getter.returns.isSome.toNat

instance (getter : MethodRef) : Decidable getter.Balanced := inferInstanceAs (Decidable (_ = _))

theorem straight_releaseProperty (getter release : MethodRef) :
    ∀ i ∈ releaseProperty getter release, i.Straight :=
  straight_behindThis ⟨rfl, rfl, rfl⟩ ⟨rfl, rfl, rfl⟩

/-- The release of a property is neutral exactly when its getter is balanced. -/
theorem neutral_releaseProperty_iff {r : Bool} {getter release : MethodRef}
    (this : release.hasThis = true) (params : release.params = []) (returns : release.returns = none)
    (n : Nat) : Neutral r (releaseProperty getter release) n ↔ getter.Balanced := by
  have one : release.arity = 1 := by simp [MethodRef.arity, this, params]
  have small : getter.returns.isSome.toNat ≤ 1 := Bool.toNat_le _
  rw [releaseProperty, neutral_behindThis_iff]
  simp only [call, callvirt, depthAfter, pops, pushes, one, returns, MethodRef.Balanced,
    Option.isSome_none, Bool.toNat_false]
  omega

namespace Module

variable {m m' before : Module} {c : WeaveContext} {capability : TypeRef} {target : Target}
  {t : TypeDef} {plan : TeardownPlan}

/-! ## The getters of a run -/

/-- The getters of a target that the command pass calls; none if it refuses the target. -/
def gettersOf (c : WeaveContext) (capability : TypeRef) (m : Module) (target : Target) :
    List MethodRef :=
  match m.findType? target.typeName with
  | none => []
  | some t => match Weave.requiredPlan c t m with
    | .error _ => []
    | .ok _ => Weave.releasableGetters c capability m target t

theorem gettersOf_eq (known : m.findType? target.typeName = some t)
    (planned : Weave.requiredPlan c t m = .ok plan) :
    m.gettersOf c capability target = Weave.releasableGetters c capability m target t := by
  rw [gettersOf, known]
  dsimp only
  rw [planned]

/-- Changes that keep all outlines keep the getters that a target releases. -/
theorem Keeps.gettersOf (kept : before.Keeps m) (known : m.findType? target.typeName = some t)
    (planned : Weave.requiredPlan c t m = .ok plan) :
    Weave.releasableGetters c capability m target t = before.gettersOf c capability target := by
  obtain ⟨t₀, known₀, _⟩ := findType?_of_shapes kept.shapes.symm known
  rw [gettersOf_eq known₀ (kept.requiredPlan known₀ known ▸ planned),
    kept.releasableGetters capability target known₀ known]

/-- The getters that a run calls in the teardowns of its command targets. -/
def releasedGetters (m : Module) (config : Config) : List MethodRef :=
  match Collaborators.resolve m config, Collaborators.resolveCapability m config with
  | .ok collaborators, .ok capability =>
    let c : WeaveContext := ⟨config, collaborators, MarkerTable.collect m config.markers⟩
    let before := Weave.start c m
    (Target.select before c.markers .releaseCommands).flatMap (before.gettersOf c capability)
  | _, _ => []

/-! ## The command pass -/

theorem WellStacked.releaseIn {run : List Instr} (typed : m.WellStacked) (key : MethodKey)
    (filled : run ≠ []) (straight : ∀ i ∈ run, i.Straight)
    (neutral : ∀ r n, Neutral r run n) : (m.releaseIn key run).WellStacked := by
  refine typed.of_map (shapes_modifyMethod _ _ _) (findMethod?_releaseIn _ _ _) fun key d typed => ?_
  split
  · exact typed.released filled straight (neutral _)
  · exact typed

variable (this : c.collaborators.contractRelease.hasThis = true)
  (params : c.collaborators.contractRelease.params = [])
  (returns : c.collaborators.contractRelease.returns = none)

include this params returns

theorem WellStacked.releaseTarget (typed : m.WellStacked) {getters : List MethodRef}
    (balanced : ∀ getter ∈ getters, getter.Balanced) (target : Target) (key : MethodKey) :
    (m.releaseTarget c getters target (.existing key)).WellStacked := by
  show (getters.foldl (fun m getter =>
    m.releaseIn key (releaseProperty getter c.collaborators.contractRelease)) m).WellStacked
  induction getters generalizing m with
  | nil => exact typed
  | cons getter rest ih =>
    obtain ⟨here, further⟩ := List.forall_mem_cons.1 balanced
    refine ih (typed.releaseIn key (by simp [releaseProperty]) (straight_releaseProperty _ _)
      fun r n => ?_) further
    exact (neutral_releaseProperty_iff this params returns n).2 here

theorem WellStacked.releasePass {targets : List Target} {entries : List TargetReport}
    (typed : m.WellStacked) (kept : before.Keeps m) (settled : Weave.Settled c targets m)
    (balanced : ∀ target ∈ targets, ∀ getter ∈ before.gettersOf c capability target,
      getter.Balanced)
    (pass : Weave.ReleasePass c capability targets m entries m') : m'.WellStacked := by
  induction pass with
  | done => exact typed
  | refused _ _ _ ih =>
    exact ih typed kept settled.tail fun target listed =>
      balanced target (List.mem_cons_of_mem _ listed)
  | @woven target _ m t _ _ _ known planned _ ih =>
    obtain ⟨key, rfl⟩ := settled _ List.mem_cons_self _ _ known planned
    have getters : Weave.releasableGetters c capability m target t =
        before.gettersOf c capability target := kept.gettersOf known planned
    have here := balanced target List.mem_cons_self
    rw [← getters] at here
    have step := keeps_releaseTarget c (Weave.releasableGetters c capability m target t) target
      key m
    exact ih (typed.releaseTarget this params returns here target key) (kept.trans step)
      (settled.tail.of_keeps step) fun target listed =>
        balanced target (List.mem_cons_of_mem _ listed)

end Module

/-! ## Whole runs -/

/-- A run keeps a module verifiable, however it ends, if the getters that it calls are balanced. -/
theorem Module.verify_weave_commands {m : Module} {config : Config} {c : Collaborators}
    (verified : m.verify = .ok ()) (resolved : Collaborators.resolve m config = .ok c)
    (containerThis : c.containerRelease.hasThis = true)
    (containerReturns : c.containerRelease.returns = none)
    (contractThis : c.contractRelease.hasThis = true)
    (contractReturns : c.contractRelease.returns = none)
    (balanced : ∀ getter ∈ m.releasedGetters config, getter.Balanced) :
    (m.weave config).module.verify = .ok () := by
  have fit := Collaborators.fit_of_resolve resolved containerThis containerReturns
  have typed : m.WellStacked := verify_iff_wellStacked.1 verified
  obtain ⟨e, stopped⟩ | ⟨c', capability, resolved', present, finished⟩ := Weave.weave_cases m config
  · rw [stopped]
    exact verified
  rw [resolved] at resolved'
  cases resolved'
  refine verify_iff_wellStacked.2 ?_
  let context : WeaveContext := ⟨config, c, MarkerTable.collect m config.markers⟩
  have start : (Weave.prepared context capability m).WellStacked :=
    typed.prepared context.disposal (Weave.allTargets m context.markers capability)
  have prepared : Weave.prepared context capability m = Weave.start context m :=
    Weave.prepared_eq_start present
  generalize m.weave config = outcome at finished
  cases finished with
  | clash pass => exact start.trackPass fit pass
  | woven pass _ same commands =>
    have tracked := start.trackPass fit pass
    cases capability with
    | none =>
      rw [same rfl]
      exact tracked
    | some capability =>
      obtain ⟨bound, released⟩ := commands capability rfl
      have kept := pass.keeps (Weave.settled_handles rfl (some capability))
      have getters : m.releasedGetters config =
          (Target.select (Weave.start context m) context.markers .releaseCommands).flatMap
            ((Weave.start context m).gettersOf context capability) := by
        rw [releasedGetters, resolved, show Collaborators.resolveCapability m config = .ok capability
          from bound]
      refine tracked.releasePass contractThis (Collaborators.params_contractRelease resolved)
        contractReturns kept (Weave.settled_commands kept) (fun target listed getter called => ?_)
        released
      rw [select_commands_of_shapes kept.shapes] at listed
      rw [prepared] at listed called
      exact balanced getter (getters ▸ List.mem_flatMap.2 ⟨target, listed, called⟩)

namespace Sample

/-- A target of both families with one command. -/
def trackedCommand : Module :=
  match Scenario.trackedCommandModel.run baseModule with
  | .ok _ m | .error _ m => m

/-- A marked class with one command, read by this getter, and an empty teardown. -/
def panel (getter : MethodDef) : Module :=
  let building : Building Unit := do
    let model ← Model.startType
      { ns := modelsNamespace, name := "Panel", base := some object, interfaces := [disposable] }
      objectConstructor
    model.mark releaseCommandsMarker
    let _ ← model.method { getter with name := "get_Refresh" } [.ldnull, .ret]
    let _ ← model.teardown []
    model.modifyType fun t => { t with properties :=
      [{ name := "Refresh", type := commandCapability, getter := some ⟨model.typeName, 0⟩ }] }
  match building.run importedModule with
  | .ok _ m | .error _ m => m

def staticGetter : MethodDef :=
  { name := "get_Refresh", returns := some commandCapability, flags := { isStatic := true } }

/-- The shape of the collaborators' methods that the runtime has. -/
def releasesItsReceiver (m : Module) : Bool :=
  match Collaborators.resolve m Config.default with
  | .ok c => c.containerRelease.hasThis && c.containerRelease.returns.isNone &&
      (c.contractRelease.hasThis && c.contractRelease.returns.isNone)
  | .error _ => false

end Sample

open Sample in
theorem Module.verify_weave_commands_trackedCommand :
    (trackedCommand.releasedGetters Config.default).length = 1 ∧
      (trackedCommand.weave Config.default).module.verify = .ok () := by
  have verified : trackedCommand.verify = .ok () := by decide +kernel
  have released : (trackedCommand.releasedGetters Config.default).length = 1 := by decide +kernel
  have balanced : ∀ getter ∈ trackedCommand.releasedGetters Config.default, getter.Balanced := by
    decide +kernel
  have shaped : releasesItsReceiver trackedCommand = true := by decide +kernel
  unfold releasesItsReceiver at shaped
  split at shaped
  · next c resolved =>
    simp only [Bool.and_eq_true, Option.isNone_iff_eq_none] at shaped
    obtain ⟨⟨containerThis, containerReturns⟩, contractThis, contractReturns⟩ := shaped
    exact ⟨released, verify_weave_commands verified resolved containerThis containerReturns
      contractThis contractReturns balanced⟩
  · cases shaped

open Sample in
/-- The receiver that is pushed for a static getter is left on the stack at the final exit. -/
theorem Module.verify_weave_staticGetter :
    (panel staticGetter).verify = .ok () ∧ releasesItsReceiver (panel staticGetter) = true ∧
      ((panel staticGetter).weave Config.default).entries.map TargetReport.isReleased = [true] ∧
      ((panel staticGetter).weave Config.default).module.verify =
        .error (.unbalancedReturn 3 0 1) := by
  refine ⟨?_, ?_, ?_, ?_⟩ <;> decide +kernel

end ReleaseWeaver
