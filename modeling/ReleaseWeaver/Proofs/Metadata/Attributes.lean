import ReleaseWeaver.Proofs.Weave.Outcome

/-
  Attributes. A change of the attributes of a module is seen in its table of markers and nowhere
  else: types and members are found as before, the chains and the teardowns are the same, and so is
  what a type can stand for. So a target is refused for the same reason, and the collaborators are
  those that they were.
-/

namespace ReleaseWeaver

section

variable (f : List TypeRef → List TypeRef)

def MethodDef.mapAttributes (d : MethodDef) : MethodDef := { d with attributes := f d.attributes }

def PropertyDef.mapAttributes (p : PropertyDef) : PropertyDef :=
  { p with attributes := f p.attributes }

/-- Change the attributes of a type and of its members. -/
def TypeDef.mapAttributes (t : TypeDef) : TypeDef :=
  { t with
    attributes := f t.attributes
    methods := t.methods.map (MethodDef.mapAttributes f)
    properties := t.properties.map (PropertyDef.mapAttributes f) }

/-- Change the attributes of all types and their members. -/
def Module.mapAttributes (m : Module) : Module :=
  { m with
    types := m.types.map (TypeDef.mapAttributes f)
    names_nodup := by
      rw [List.map_map]
      exact m.names_nodup }

end

variable {f : List TypeRef → List TypeRef}

/-! ## Members -/

namespace TypeDef

theorem keyedMethods_mapAttributes (t : TypeDef) : (t.mapAttributes f).keyedMethods =
    t.keyedMethods.map fun method => (method.1, method.2.mapAttributes f) := by
  refine List.ext_getElem? fun i => ?_
  rw [getElem?_keyedMethods, List.getElem?_map, getElem?_keyedMethods, mapAttributes,
    List.getElem?_map, Option.map_map, Option.map_map]
  rfl

theorem keyedProperties_mapAttributes (t : TypeDef) : (t.mapAttributes f).keyedProperties =
    t.keyedProperties.map fun property => (property.1, property.2.mapAttributes f) := by
  simp only [keyedProperties, mapAttributes, List.map_map]
  rfl

theorem ownTeardown?_mapAttributes (d : Disposal) (t : TypeDef) :
    (t.mapAttributes f).ownTeardown? d =
      (t.ownTeardown? d).map fun method => (method.1, method.2.mapAttributes f) := by
  rw [ownTeardown?, ownTeardown?, keyedMethods_mapAttributes, List.find?_map]
  rfl

end TypeDef

/-- A table chooses a type whatever attributes it has. -/
theorem Target.ofType?_mapAttributes (table : MarkerTable) (family : Family) (t : TypeDef) :
    ofType? table family (t.mapAttributes f) = ofType? table family t := by
  have members : table.marksMember family (t.mapAttributes f) = table.marksMember family t := by
    cases family with
    | trackHandles =>
      simp only [MarkerTable.marksMember, TypeDef.keyedMethods_mapAttributes, List.any_map]
      rfl
    | releaseCommands =>
      simp only [MarkerTable.marksMember, TypeDef.keyedProperties_mapAttributes, List.any_map]
      rfl
  rw [ofType?, ofType?, members]
  rfl

namespace Module

variable {m : Module} {d : Disposal}

/-! ## Look-ups -/

theorem findType?_mapAttributes (m : Module) (name : String) :
    (m.mapAttributes f).findType? name = (m.findType? name).map (TypeDef.mapAttributes f) := by
  rw [findType?, mapAttributes, List.find?_map]
  rfl

theorem findMethod?_mapAttributes (m : Module) (key : MethodKey) :
    (m.mapAttributes f).findMethod? key =
      (m.findMethod? key).map (MethodDef.mapAttributes f) := by
  rw [findMethod?, findMethod?, findType?_mapAttributes]
  cases m.findType? key.owner with
  | none => rfl
  | some t => exact List.getElem?_map

theorem resolve?_mapAttributes (m : Module) (ref : TypeRef) :
    (m.mapAttributes f).resolve? ref = (m.resolve? ref).map (TypeDef.mapAttributes f) := by
  rw [resolve?, resolve?, findType?_mapAttributes]
  split <;> rfl

theorem qualifiedName_mapAttributes (m : Module) (key : MethodKey) :
    (m.mapAttributes f).qualifiedName key = m.qualifiedName key := by
  rw [qualifiedName, qualifiedName, findMethod?_mapAttributes, Option.map_map]
  rfl

theorem select_mapAttributes (m : Module) (table : MarkerTable) (family : Family) :
    Target.select (m.mapAttributes f) table family = Target.select m table family := by
  rw [Target.select, Target.select, localTypes, localTypes, mapAttributes, List.filter_map,
    List.filterMap_map]
  exact List.filterMap_congr fun t _ => Target.ofType?_mapAttributes table family t

/-! ## Chains -/

theorem ancestors_mapAttributes (m : Module) (t : TypeDef) :
    (m.mapAttributes f).ancestors (t.mapAttributes f) =
      (m.ancestors t).map (TypeDef.mapAttributes f) := by
  have chain (count : Nat) (t : TypeDef) : (m.mapAttributes f).baseChain count (t.mapAttributes f) =
      (m.baseChain count t).map (TypeDef.mapAttributes f) := by
    induction count generalizing t with
    | zero => rfl
    | succ count ih =>
      have base : (m.mapAttributes f).baseOf? (t.mapAttributes f) =
          (m.baseOf? t).map (TypeDef.mapAttributes f) := by
        show t.base.bind (m.mapAttributes f).resolve? = (t.base.bind m.resolve?).map _
        cases t.base with
        | none => rfl
        | some ref => exact resolve?_mapAttributes m ref
      rw [baseChain, baseChain, base]
      cases m.baseOf? t with
      | none => rfl
      | some above => exact congrArg (t.mapAttributes f :: ·) (ih above)
  have length : (m.mapAttributes f).types.length = m.types.length := List.length_map _
  rw [ancestors, ancestors, length, chain]

theorem isDisposable_mapAttributes (m : Module) (d : Disposal) (t : TypeDef) :
    (m.mapAttributes f).isDisposable d (t.mapAttributes f) = m.isDisposable d t := by
  rw [isDisposable, isDisposable, ancestors_mapAttributes, List.any_map]
  rfl

theorem inheritedTeardown?_mapAttributes (m : Module) (d : Disposal) (t : TypeDef) :
    (m.mapAttributes f).inheritedTeardown? d (t.mapAttributes f) =
      (m.inheritedTeardown? d t).map fun method => (method.1, method.2.mapAttributes f) := by
  rw [inheritedTeardown?, inheritedTeardown?, ancestors_mapAttributes, ← List.map_drop,
    List.findSome?_map, List.map_findSome?]
  exact congrArg (List.findSome? · _) (funext fun t => t.ownTeardown?_mapAttributes d)

theorem planTeardown_mapAttributes (m : Module) (d : Disposal) (t : TypeDef) :
    (m.mapAttributes f).planTeardown d (t.mapAttributes f) = m.planTeardown d t := by
  rw [planTeardown, planTeardown, TypeDef.ownTeardown?_mapAttributes,
    inheritedTeardown?_mapAttributes]
  cases t.ownTeardown? d with
  | some own => rfl
  | none =>
    cases m.inheritedTeardown? d t with
    | none => rfl
    | some inherited =>
      dsimp only [Option.map_none, Option.map_some]
      rw [qualifiedName_mapAttributes]
      rfl

theorem isAssignable_mapAttributes (m : Module) :
    (m.mapAttributes f).isAssignable = m.isAssignable := by
  funext t target
  refine reaches_congr_supertypes (fun ref => ?_) target [] [t]
  rw [resolve?_mapAttributes, Option.map_map]
  rfl

/-! ## What a run decides -/

theorem fault?_mapAttributes (m : Module) (c : WeaveContext) (name : String) :
    (m.mapAttributes f).fault? c name = m.fault? c name := by
  rw [fault?, fault?, findType?_mapAttributes]
  cases m.findType? name with
  | none => rfl
  | some t =>
    rw [Option.map_some, Option.bind_some, Option.bind_some, Weave.requiredPlan, Weave.requiredPlan,
      isDisposable_mapAttributes, planTeardown_mapAttributes]
    rfl

theorem clashes_mapAttributes (m : Module) (c : WeaveContext) (name : String) :
    (m.mapAttributes f).clashes c name = m.clashes c name := by
  rw [clashes, clashes, findType?_mapAttributes, Option.any_map]
  have field (name field : String) :
      (m.mapAttributes f).declaresField name field = m.declaresField name field := by
    rw [declaresField, declaresField, findType?_mapAttributes, Option.map_map]
    rfl
  exact congrArg (Option.any · _) (funext fun t => field name (c.trackingField t).name)

end Module

/-! ## Collaborators -/

namespace Collaborators

open ReleaseWeaver.Module

variable {m : Module}

theorem resolveSymbol_mapAttributes (m : Module) (symbol : TypeSymbol) :
    (m.mapAttributes f).resolveSymbol symbol =
      (m.resolveSymbol symbol).map (TypeDef.mapAttributes f) := by
  have reference : (m.mapAttributes f).requireReference symbol.assembly =
      m.requireReference symbol.assembly := rfl
  rw [Module.resolveSymbol, Module.resolveSymbol, reference, findType?_mapAttributes]
  cases m.requireReference symbol.assembly with
  | error e => rfl
  | ok a =>
    cases m.findType? symbol.name with
    | none => rfl
    | some t =>
      show (if t.importedFrom == some symbol.assembly then _ else _) = _
      simp only [bind, Except.bind]
      split <;> rfl

theorem requireMethod_mapAttributes (t : TypeDef) (member : String) {fits : MethodDef → Bool}
    (blind : ∀ d, fits (d.mapAttributes f) = fits d) :
    requireMethod (t.mapAttributes f) member fits = requireMethod t member fits := by
  have found : (t.mapAttributes f).methods.find? fits =
      (t.methods.find? fits).map (MethodDef.mapAttributes f) := by
    rw [TypeDef.mapAttributes, List.find?_map]
    exact congrArg (fun p => (t.methods.find? p).map _) (funext blind)
  rw [requireMethod, requireMethod, found]
  cases t.methods.find? fits <;> rfl

theorem requireHelper_mapAttributes (t : TypeDef) (member : String) (contract container : TypeRef) :
    requireHelper (t.mapAttributes f) member contract container =
      requireHelper t member contract container := by
  have named : (t.mapAttributes f).methods.filter (fun method => method.name == member) =
      (t.methods.filter fun method => method.name == member).map (MethodDef.mapAttributes f) := by
    rw [TypeDef.mapAttributes, List.filter_map]
    rfl
  rw [requireHelper, requireHelper, named]
  cases t.methods.filter fun method => method.name == member with
  | nil => rfl
  | cons method rest => cases rest <;> rfl

theorem resolve_mapAttributes (m : Module) (config : Config) :
    resolve (m.mapAttributes f) config = resolve m config := by
  have through {α : Type} (found : Except BindingError TypeDef)
      (next : TypeDef → Except BindingError α) :
      (found.map (TypeDef.mapAttributes f) >>= next) =
        found >>= fun t => next (t.mapAttributes f) := by
    cases found <;> rfl
  have releases (t : TypeDef) : requireMethod (t.mapAttributes f) config.releaseMethod
      (isRelease config.releaseMethod) =
        requireMethod t config.releaseMethod (isRelease config.releaseMethod) :=
    requireMethod_mapAttributes t _ fun _ => rfl
  have constructs (t : TypeDef) : requireMethod (t.mapAttributes f) ".ctor()" isDefaultConstructor =
      requireMethod t ".ctor()" isDefaultConstructor :=
    requireMethod_mapAttributes t _ fun _ => rfl
  simp only [resolve, resolveSymbol_mapAttributes, through, releases, constructs,
    requireHelper_mapAttributes]
  rfl

theorem resolveCapability_mapAttributes (m : Module) (config : Config) :
    resolveCapability (m.mapAttributes f) config = resolveCapability m config := by
  rw [resolveCapability, resolveCapability, resolveSymbol_mapAttributes]
  cases m.resolveSymbol config.commandCapability <;> rfl

end Collaborators

end ReleaseWeaver
