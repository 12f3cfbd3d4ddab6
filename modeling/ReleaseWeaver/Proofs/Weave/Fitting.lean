import ReleaseWeaver.Proofs.Weave.Verified
import ReleaseWeaver.Sample.Builder

/-
  How the bound collaborators fit the code that is emitted with them. The container's constructor
  and the helper are bound by their whole signature, and the prologue and the registration are
  neutral. A release method is bound by its name and its parameters alone: it is the first such
  method of the contract or of the container, static or not, with a result or without. Main
  statement: the runs always find their operands, and a release leaves on the stack the receiver
  that a static method does not take and the result that nobody takes, so it is neutral exactly if
  the method has neither. A container that declares a static release before the one that is meant
  is bound to it, and the woven module fails the stack check.
-/

namespace ReleaseWeaver

open Instr

namespace Instr

/-! ## Runs from one depth to another -/

/-- A run finds its operands on a depth and leaves another one. -/
structure Reaches (returnsValue : Bool) (run : List Instr) (before after : Nat) : Prop where
  enough : ∀ j i, run[j]? = some i →
    i.pops returnsValue ≤ depthThrough returnsValue (run.take j) before
  last : depthThrough returnsValue run before = after

variable {r : Bool} {i : Instr} {run : List Instr} {before after : Nat}

theorem Reaches.nil : Reaches r [] before before := ⟨fun _ _ here => (by cases here), rfl⟩

theorem Reaches.cons (operands : i.pops r ≤ before)
    (rest : Reaches r run (i.depthAfter r before) after) : Reaches r (i :: run) before after where
  enough := by
    intro j i' here
    cases j with
    | zero =>
      cases here
      exact operands
    | succ j => exact rest.enough j i' here
  last := rest.last

theorem Reaches.neutral_iff (reaches : Reaches r run before after) :
    Neutral r run before ↔ after = before :=
  ⟨fun neutral => reaches.last.symm.trans neutral.same,
    fun same => ⟨reaches.enough, reaches.last.trans same⟩⟩

theorem pops_call (method : MethodRef) : (call method).pops r = method.arity := rfl

theorem pushes_call (method : MethodRef) :
    (call method).pushes = method.returns.isSome.toNat := rfl

theorem pops_callvirt (method : MethodRef) : (callvirt method).pops r = method.arity := rfl

theorem pushes_callvirt (method : MethodRef) :
    (callvirt method).pushes = method.returns.isSome.toNat := rfl

end Instr

/-! ## Releases -/

/-- What a call leaves of the receiver that was pushed for it and of its result. -/
def MethodDef.surplus (d : MethodDef) : Nat := d.isStatic.toNat + d.returns.isSome.toNat

theorem MethodDef.surplus_eq_zero {d : MethodDef} :
    d.surplus = 0 ↔ d.isStatic = false ∧ d.returns = none := by
  rw [surplus, Nat.add_eq_zero_iff, Bool.toNat_eq_zero, Bool.toNat_eq_zero,
    Option.isSome_eq_false_iff, Option.isNone_iff_eq_none]

theorem TypeDef.arity_methodRef (t : TypeDef) {d : MethodDef} (params : d.params = []) :
    (t.methodRef d).arity = (!d.isStatic).toNat := by
  rw [MethodRef.arity, methodRef, params, List.length_nil, Nat.zero_add]

/-- A release of the one value that an instruction makes of the receiver. -/
theorem reaches_releaseOf {r : Bool} {value : Instr} (takes : value.pops r = 1)
    (makes : value.pushes = 1) {t : TypeDef} {release : MethodDef} (params : release.params = [])
    (n : Nat) :
    Reaches r [.ldthis, value, .callvirt (t.methodRef release)] n (n + release.surplus) := by
  have receiver : Instr.ldthis.depthAfter r n = n + 1 := rfl
  have owned : value.depthAfter r (n + 1) = n + 1 := by
    rw [depthAfter, takes, makes, Nat.add_sub_cancel]
  have released : (Instr.callvirt (t.methodRef release)).depthAfter r (n + 1) =
      n + release.surplus := by
    rw [depthAfter, pops_callvirt, pushes_callvirt, t.arity_methodRef params, MethodDef.surplus]
    cases release.isStatic
    · exact (congrArg (n + ·) (Nat.zero_add _)).symm
    · exact Nat.add_assoc n 1 _
  refine .cons (Nat.zero_le n) (.cons ?_ (.cons ?_ ?_))
  · rw [takes, receiver]
    exact Nat.le_add_left 1 n
  · rw [receiver, owned, pops_callvirt, t.arity_methodRef params]
    exact (Bool.toNat_le _).trans (Nat.le_add_left 1 n)
  · rw [receiver, owned, released]
    exact .nil

/-! ## Bound collaborators -/

namespace Collaborators

/-- What bound collaborators leave on the stack: the prologue and the registration nothing, on
every depth that has the handle, and the releases the surplus of the first release of their type. -/
theorem depths_of_resolve {m : Module} {config : Config} {c : Collaborators}
    (found : resolve m config = .ok c) : ∃ contract container dispose drain,
      m.resolveSymbol config.disposalContract = .ok contract ∧
      m.resolveSymbol config.trackingContainer = .ok container ∧
      Picks contract config.releaseMethod dispose ∧ Picks container config.releaseMethod drain ∧
      ∀ (r : Bool) (n : Nat) (field : FieldRef),
        Neutral r (prologue field c.containerConstructor) n ∧
        Neutral r (registration field c.helper) (n + 1) ∧
        Reaches r (releaseField field c.containerRelease) n (n + drain.surplus) ∧
        (Neutral r (releaseField field c.containerRelease) n ↔
          drain.isStatic = false ∧ drain.returns = none) ∧
        ∀ getter : MethodRef, getter.hasThis = true → getter.params = [] →
          getter.returns.isSome = true →
          Reaches r (releaseProperty getter c.contractRelease) n (n + dispose.surplus) ∧
          (Neutral r (releaseProperty getter c.contractRelease) n ↔
            dispose.isStatic = false ∧ dispose.returns = none) := by
  obtain ⟨contract, container, dispose, drain, promised, holds, disposes, drains, contractIs,
    containerIs⟩ := picks_of_resolve found
  obtain ⟨constructor, static, params, returns, _⟩ := shapes_of_resolve found
  have neutral_iff {r : Bool} {run : List Instr} {n : Nat} {release : MethodDef}
      (reaches : Reaches r run n (n + release.surplus)) :
      Neutral r run n ↔ release.isStatic = false ∧ release.returns = none :=
    reaches.neutral_iff.trans (Nat.add_eq_left.trans MethodDef.surplus_eq_zero)
  refine ⟨contract, container, dispose, drain, promised, holds, disposes, drains,
    fun r n field => ?_⟩
  have drained : Reaches r (releaseField field c.containerRelease) n (n + drain.surplus) := by
    rw [containerIs]
    exact reaches_releaseOf rfl rfl drains.params n
  refine ⟨neutral_prologue field constructor n, neutral_registration field static params returns n,
    drained, neutral_iff drained, fun getter this noParams value => ?_⟩
  have takes : (Instr.call getter).pops r = 1 := by
    rw [pops_call, MethodRef.arity, this, noParams]
    rfl
  have makes : (Instr.call getter).pushes = 1 := by
    rw [pushes_call, value]
    rfl
  have disposed : Reaches r (releaseProperty getter c.contractRelease) n (n + dispose.surplus) := by
    rw [contractIs]
    exact reaches_releaseOf takes makes disposes.params n
  exact ⟨disposed, neutral_iff disposed⟩

end Collaborators

namespace Sample

def bag : TypeRef := .plain "Sweep.Testing" "Bag"

/-- A container with a static release before the one for its instances, and a helper for it. -/
def bagModule : Module :=
  importType
    (importType importedModule
      { imported "Sweep.Testing" "Bag" "Sweep.Testing" with
        base := some object, interfaces := [disposable] }
      [.constructor, staticMethod "Dispose" none [], newSlotMethod "Dispose"])
    (imported "Sweep.Testing" "BagExtensions" "Sweep.Testing")
    [staticMethod "TrackWith" (some disposable) [disposable, bag]]

/-- A marked class with an empty teardown, where handles are kept in bags. -/
def bagKeeper : Module :=
  let building : Building Unit := do
    let model ← Model.startType
      { ns := modelsNamespace, name := "Keeper", base := some object, interfaces := [disposable] }
      objectConstructor
    model.mark trackHandlesMarker
    let _ ← model.constructor [] []
    let _ ← model.teardown []
  match building.run bagModule with
  | .ok _ m | .error _ m => m

def bagConfig : Config where
  trackingContainer := ⟨"Sweep.Testing.Bag", "Sweep.Testing"⟩
  registrationHelper := ⟨"Sweep.Testing.BagExtensions", "TrackWith", "Sweep.Testing"⟩

/-- The depth after the release of a field, with the collaborators that are bound. -/
def depthAfterRelease (m : Module) (config : Config) (field : FieldRef) (before : Nat) : Option Nat :=
  (Collaborators.resolve m config).toOption.map fun c =>
    depthThrough false (releaseField field c.containerRelease) before

end Sample

namespace Collaborators

open Sample in
/-- The container of the runtime fits: its release leaves nothing. -/
theorem depths_of_resolve_runtime : ∃ c, resolve importedModule Config.default = .ok c ∧
    Neutral false (releaseField probe c.containerRelease) 0 := by
  have bound : (resolve importedModule Config.default).toOption.isSome = true := by decide +kernel
  obtain ⟨c, here⟩ := Option.isSome_iff_exists.1 bound
  have found := eq_ok_of_toOption here
  obtain ⟨_, container, _, drain, _, holds, _, picks, depths⟩ := depths_of_resolve found
  have shaped : ((importedModule.resolveSymbol Config.default.trackingContainer).toOption.bind
      fun t => t.methods.find? (isRelease Config.default.releaseMethod)).all
        (fun d => !d.isStatic && d.returns.isNone) = true := by decide +kernel
  rw [holds, Except.toOption, Option.bind_some, show container.methods.find? _ = _ from picks,
    Option.all_some, Bool.and_eq_true, Bool.not_eq_true', Option.isNone_iff_eq_none] at shaped
  exact ⟨c, found, (depths false 0 probe).2.2.2.1.2 shaped⟩

open Sample in
/-- The static release is called on a receiver that it does not take, and the woven module fails
the stack check at the return of the teardown. -/
theorem resolve_unfit :
    (¬∀ (m : Module) (config : Config) (c : Collaborators), resolve m config = .ok c →
      ∀ (r : Bool) (n : Nat) (field : FieldRef),
        Neutral r (prologue field c.containerConstructor) n ∧
        Neutral r (registration field c.helper) (n + 1) ∧
        Neutral r (releaseField field c.containerRelease) n ∧
        ∀ getter : MethodRef, getter.hasThis = true → getter.params = [] →
          getter.returns.isSome = true → Neutral r (releaseProperty getter c.contractRelease) n) ∧
      bagKeeper.verify = .ok () ∧
      (bagKeeper.weave bagConfig).entries.map TargetReport.isReleased = [true] ∧
      (bagKeeper.weave bagConfig).module.verify = .error (.unbalancedReturn 3 0 1) := by
  refine ⟨fun claimed => ?_, ?_, ?_, ?_⟩
  · have left : depthAfterRelease bagKeeper bagConfig probe 0 = some 1 := by decide +kernel
    obtain ⟨c, found, reached⟩ := Option.map_eq_some_iff.1 left
    have same := (claimed _ _ c (eq_ok_of_toOption found) false 0 probe).2.2.1.same
    rw [reached] at same
    cases same
  all_goals decide +kernel

end Collaborators

end ReleaseWeaver
