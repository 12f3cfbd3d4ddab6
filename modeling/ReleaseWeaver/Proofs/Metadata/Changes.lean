import ReleaseWeaver.Proofs.Metadata.Lookup
import ReleaseWeaver.Weave.Tracking
import ReleaseWeaver.Weave.Teardown

/-
  Changes to a module, seen through its look-ups. A change of one type or one method is the old
  look-up with the change applied where it belongs. What a pass never touches is the shape of the
  types: everything but their fields and methods.
-/

namespace ReleaseWeaver

/-- A type without its fields and methods. -/
def TypeDef.shape (t : TypeDef) : TypeDef := { t with fields := [], methods := [] }

@[simp] theorem TypeDef.definitionName_shape (t : TypeDef) :
    t.shape.definitionName = t.definitionName := rfl

theorem TypeDef.eq_of_shape {t t' : TypeDef} (shape : t'.shape = t.shape)
    (fields : t'.fields = t.fields) (methods : t'.methods = t.methods) : t' = t := by
  have same (t : TypeDef) : t = { t.shape with fields := t.fields, methods := t.methods } := rfl
  rw [same t', same t, shape, fields, methods]

namespace Module

theorem changeNamed_of_eq {name : String} {t : TypeDef} (same : t.definitionName = name)
    (f : TypeDef → TypeDef) : changeNamed name f t = { f t with ns := t.ns, name := t.name } := by
  rw [changeNamed, if_pos (by simp [same])]

theorem changeNamed_of_ne {name : String} {t : TypeDef} (other : t.definitionName ≠ name)
    (f : TypeDef → TypeDef) : changeNamed name f t = t := by
  rw [changeNamed, if_neg (by simp [other])]

theorem findType?_modifyType (m : Module) (name : String) (f : TypeDef → TypeDef)
    (name' : String) :
    (m.modifyType name f).findType? name' = (m.findType? name').map (changeNamed name f) := by
  show (m.types.map (changeNamed name f)).find? _ = (m.types.find? _).map (changeNamed name f)
  rw [List.find?_map]
  congr 2
  funext t
  rw [Function.comp_apply, definitionName_changeNamed]

/-- A change counts only for what it does to the type of that name. -/
theorem modifyType_congr {m : Module} {name : String} {f g : TypeDef → TypeDef}
    (same : ∀ t, m.findType? name = some t → f t = g t) :
    m.modifyType name f = m.modifyType name g := by
  have types : m.types.map (changeNamed name f) = m.types.map (changeNamed name g) := by
    refine List.map_congr_left fun t listed => ?_
    by_cases here : t.definitionName = name
    · have known := findType?_of_mem listed
      rw [here] at known
      rw [changeNamed_of_eq here, changeNamed_of_eq here, same t known]
    · rw [changeNamed_of_ne here, changeNamed_of_ne here]
  simp only [modifyType, types]

theorem modifyType_id (m : Module) (name : String) : m.modifyType name id = m := by
  have each : changeNamed name id = id := by
    funext t
    unfold changeNamed
    split <;> rfl
  simp only [modifyType, each, List.map_id]

theorem modifyMethod_congr {m : Module} {key : MethodKey} {f g : MethodDef → MethodDef}
    (same : ∀ d, m.findMethod? key = some d → f d = g d) :
    m.modifyMethod key f = m.modifyMethod key g := by
  refine modifyType_congr fun t known => ?_
  have methods : t.methods.modify key.index f = t.methods.modify key.index g := by
    refine List.ext_getElem? fun index => ?_
    rw [List.getElem?_modify, List.getElem?_modify]
    by_cases here : key.index = index
    · subst here
      cases found : t.methods[key.index]? with
      | none => rfl
      | some d =>
        have equal := same d (findMethod?_eq_some.2 ⟨t, known, found⟩)
        simp only [if_true, Option.map_eq_map, Option.map_some, equal]
    · simp only [here, if_false]
  rw [methods]

theorem modifyMethod_eq_self {m : Module} {key : MethodKey} {f : MethodDef → MethodDef}
    (same : ∀ d, m.findMethod? key = some d → f d = d) : m.modifyMethod key f = m := by
  have identity : m.modifyMethod key id = m := by
    have each : (fun t : TypeDef => { t with methods := t.methods.modify key.index id }) = id := by
      funext t
      rw [List.modify_id]
      rfl
    rw [modifyMethod, each, modifyType_id]
  exact (modifyMethod_congr (g := id) same).trans identity

theorem modifyMethod_modifyMethod (m : Module) (key : MethodKey) (f g : MethodDef → MethodDef) :
    (m.modifyMethod key f).modifyMethod key g = m.modifyMethod key fun d => g (f d) := by
  have change (f : MethodDef → MethodDef) {t : TypeDef} (here : t.definitionName = key.owner) :
      changeNamed key.owner (fun t => { t with methods := t.methods.modify key.index f }) t =
        { t with methods := t.methods.modify key.index f } := changeNamed_of_eq here _
  have types : (m.modifyMethod key f).types.map (changeNamed key.owner
        fun t => { t with methods := t.methods.modify key.index g }) =
      m.types.map (changeNamed key.owner
        fun t => { t with methods := t.methods.modify key.index fun d => g (f d) }) := by
    rw [modifyMethod, modifyType, List.map_map]
    refine List.map_congr_left fun t _ => ?_
    rw [Function.comp_apply]
    by_cases here : t.definitionName = key.owner
    · have here' : ({ t with methods := t.methods.modify key.index f } : TypeDef).definitionName =
          key.owner := here
      rw [change f here, change g here', change _ here, List.modify_modify_eq]
      rfl
    · rw [changeNamed_of_ne here, changeNamed_of_ne here, changeNamed_of_ne here]
  simp only [modifyMethod, modifyType] at types ⊢
  simp only [types]

theorem findMethod?_modifyMethod (m : Module) (key : MethodKey) (f : MethodDef → MethodDef)
    (key' : MethodKey) : (m.modifyMethod key f).findMethod? key' =
      (m.findMethod? key').map fun d => if key' = key then f d else d := by
  rw [findMethod?, findMethod?, modifyMethod, findType?_modifyType]
  cases known : m.findType? key'.owner with
  | none => rfl
  | some t =>
    have named : t.definitionName = key'.owner := (mem_of_findType? known).2
    rw [Option.map_some, Option.bind_some, Option.bind_some]
    by_cases owner : key'.owner = key.owner
    · rw [changeNamed_of_eq (named.trans owner), List.getElem?_modify]
      congr 1
      funext d
      have same : key.index = key'.index ↔ key' = key := by
        refine ⟨fun index => ?_, fun same => by rw [same]⟩
        cases key
        cases key'
        simp_all
      by_cases here : key.index = key'.index
      · rw [if_pos here, if_pos (same.1 here)]
      · rw [if_neg here, if_neg fun eq => here (same.2 eq)]
    · rw [changeNamed_of_ne fun eq => owner (named.symm.trans eq)]
      have other : key' ≠ key := fun eq => owner (by rw [eq])
      simp only [if_neg other, Option.map_id']

/-- A change that goes through the methods of a type one by one. -/
theorem findMethod?_modifyType {m : Module} {name : String} {f : TypeDef → TypeDef}
    {g : MethodDef → MethodDef} (each : ∀ t, (f t).methods = t.methods.map g) (key : MethodKey) :
    (m.modifyType name f).findMethod? key =
      (m.findMethod? key).map fun d => if key.owner = name then g d else d := by
  rw [findMethod?, findMethod?, findType?_modifyType]
  cases known : m.findType? key.owner with
  | none => rfl
  | some t =>
    have named : t.definitionName = key.owner := (mem_of_findType? known).2
    rw [Option.map_some, Option.bind_some, Option.bind_some]
    by_cases owner : key.owner = name
    · rw [changeNamed_of_eq (named.trans owner)]
      simp only [each, List.getElem?_map, if_pos owner]
    · rw [changeNamed_of_ne fun eq => owner (named.symm.trans eq)]
      simp only [if_neg owner, Option.map_id']

theorem nextMethodKey_of_findType? {m : Module} {owner : String} {t : TypeDef}
    (known : m.findType? owner = some t) : m.nextMethodKey owner = ⟨owner, t.methods.length⟩ := by
  rw [nextMethodKey, known]
  rfl

theorem findMethod?_nextMethodKey (m : Module) (owner : String) :
    m.findMethod? (m.nextMethodKey owner) = none := by
  unfold findMethod? nextMethodKey
  cases known : m.findType? owner with
  | none => rfl
  | some t => simp

theorem isSome_findMethod?_iff (m : Module) (owner : String) (i : Nat) :
    (m.findMethod? ⟨owner, i⟩).isSome = true ↔ i < (m.nextMethodKey owner).index := by
  rw [findMethod?, nextMethodKey]
  cases m.findType? owner with
  | none => simp
  | some t => simp

theorem nextMethodKey_congr {m m' : Module} {owner : String} (same : ∀ i,
      (m'.findMethod? ⟨owner, i⟩).isSome = (m.findMethod? ⟨owner, i⟩).isSome) :
    m'.nextMethodKey owner = m.nextMethodKey owner := by
  have each (i : Nat) : i < (m'.nextMethodKey owner).index ↔ i < (m.nextMethodKey owner).index := by
    rw [← isSome_findMethod?_iff, ← isSome_findMethod?_iff, same]
  have index : (m'.nextMethodKey owner).index = (m.nextMethodKey owner).index :=
    Nat.le_antisymm (Nat.not_lt.1 fun more => Nat.lt_irrefl _ ((each _).1 more))
      (Nat.not_lt.1 fun more => Nat.lt_irrefl _ ((each _).2 more))
  exact congrArg (MethodKey.mk owner) index

/-- The new method is found under the next key, every other one as before. -/
theorem findMethod?_addMethod {m : Module} {owner : String} {t : TypeDef}
    (known : m.findType? owner = some t) (d : MethodDef) (key : MethodKey) :
    (m.addMethod owner d).findMethod? key =
      if key = m.nextMethodKey owner then some d else m.findMethod? key := by
  have named : t.definitionName = owner := (mem_of_findType? known).2
  have changed : (m.addMethod owner d).findType? key.owner = (m.findType? key.owner).map
      (changeNamed owner fun t => { t with methods := t.methods ++ [d] }) :=
    findType?_modifyType m owner _ key.owner
  rw [nextMethodKey_of_findType? known, findMethod?, changed, findMethod?]
  by_cases here : key.owner = owner
  · rw [here, known, Option.map_some, Option.bind_some, Option.bind_some, changeNamed_of_eq named]
    show (t.methods ++ [d])[key.index]? = _
    by_cases last : key.index = t.methods.length
    · have same : key = ⟨owner, t.methods.length⟩ := by
        cases key
        simp_all
      rw [if_pos same, last, List.getElem?_concat_length]
    · rw [if_neg fun eq => last (by rw [eq]), List.getElem?_append]
      split
      · rfl
      · next beyond =>
        rw [List.getElem?_eq_none (by simp; omega), List.getElem?_eq_none (by omega)]
  · rw [if_neg fun eq => here (by rw [eq])]
    cases known' : m.findType? key.owner with
    | none => rfl
    | some u =>
      have named' : u.definitionName = key.owner := (mem_of_findType? known').2
      rw [Option.map_some, Option.bind_some, Option.bind_some,
        changeNamed_of_ne fun eq => here (named'.symm.trans eq)]

/-! ## Shapes -/

def shapes (m : Module) : List TypeDef := m.types.map TypeDef.shape

theorem shapes_modifyType {m : Module} {name : String} {f : TypeDef → TypeDef}
    (kept : ∀ t, (f t).shape = t.shape) : (m.modifyType name f).shapes = m.shapes := by
  show (m.types.map (changeNamed name f)).map TypeDef.shape = m.types.map TypeDef.shape
  rw [List.map_map]
  congr 1
  funext t
  rw [Function.comp_apply, changeNamed]
  split
  · have same := kept t
    simp only [TypeDef.shape, TypeDef.mk.injEq] at same ⊢
    simp [same]
  · rfl

theorem shapes_modifyMethod (m : Module) (key : MethodKey) (f : MethodDef → MethodDef) :
    (m.modifyMethod key f).shapes = m.shapes := shapes_modifyType fun _ => rfl

theorem shapes_addMethod (m : Module) (owner : String) (d : MethodDef) :
    (m.addMethod owner d).shapes = m.shapes :=
  shapes_modifyType (f := fun t => { t with methods := t.methods ++ [d] }) fun _ => rfl

/-- Modules of the same shapes know the same types, up to fields and methods. -/
theorem findType?_shape {m m' : Module} (same : m'.shapes = m.shapes) (name : String) :
    (m'.findType? name).map TypeDef.shape = (m.findType? name).map TypeDef.shape := by
  have through (m : Module) : (m.findType? name).map TypeDef.shape =
      m.shapes.find? fun t => t.definitionName == name := by
    rw [shapes, List.find?_map]
    rfl
  rw [through, through, same]

theorem findType?_of_shapes {m m' : Module} (same : m'.shapes = m.shapes) {name : String}
    {t : TypeDef} (known : m.findType? name = some t) :
    ∃ t', m'.findType? name = some t' ∧ t'.shape = t.shape := by
  have shaped := findType?_shape same name
  rw [known, Option.map_some] at shaped
  exact Option.map_eq_some_iff.1 shaped

theorem unknown_of_shapes {m m' : Module} (same : m'.shapes = m.shapes) {name : String}
    (unknown : m.findType? name = none) : m'.findType? name = none := by
  have shaped := findType?_shape same name
  rwa [unknown, Option.map_none, Option.map_eq_none_iff] at shaped

theorem shape_of_known {m m' : Module} (same : m'.shapes = m.shapes) {name : String}
    {t t' : TypeDef} (known : m.findType? name = some t) (known' : m'.findType? name = some t') :
    t'.shape = t.shape := by
  have shaped := findType?_shape same name
  rw [known, known'] at shaped
  exact Option.some.inj shaped

/-- The module has a type of this name of its own. -/
def Owns (m : Module) (name : String) : Prop :=
  ∃ t, m.findType? name = some t ∧ t.isLocal = true

theorem owns_of_shapes {m m' : Module} (same : m'.shapes = m.shapes) {name : String} :
    m'.Owns name ↔ m.Owns name := by
  have half {m m' : Module} (same : m'.shapes = m.shapes) (own : m.Owns name) : m'.Owns name := by
    obtain ⟨t, known, isLocal⟩ := own
    obtain ⟨t', known', shaped⟩ := findType?_of_shapes same known
    refine ⟨t', known', ?_⟩
    have from_shape : t'.shape.isLocal = t.shape.isLocal := by rw [shaped]
    exact from_shape.trans isLocal
  exact ⟨half same.symm, half same⟩

/-- The check of a module, method by method. -/
theorem verify_iff_wellStacked {m : Module} : m.verify = .ok () ↔
    ∀ key d, m.Owns key.owner → m.findMethod? key = some d → d.WellStacked := by
  rw [verify_ok_iff]
  refine ⟨fun all key d own found => ?_, fun all t listed isLocal d declared => ?_⟩
  · obtain ⟨t, known, isLocal⟩ := own
    obtain ⟨t', known', there⟩ := findMethod?_eq_some.1 found
    rw [known] at known'
    cases known'
    exact all t (mem_of_findType? known).1 isLocal d (List.mem_of_getElem? there)
  · obtain ⟨index, there⟩ := List.mem_iff_getElem?.1 declared
    have known := findType?_of_mem listed
    exact all ⟨t.definitionName, index⟩ d ⟨t, known, isLocal⟩
      (findMethod?_eq_some.2 ⟨t, known, there⟩)

/-! ## Headers -/

/-- What a module has besides its types and the log of its methods. -/
def header (m : Module) : String × List AssemblyRef × List PropertyKey :=
  (m.name, m.references, m.propertyLog)

/-! ## Fields -/

/-- The fields of the type of a name. -/
def fieldsOf (m : Module) (name : String) : Option (List FieldDef) :=
  (m.findType? name).map TypeDef.fields

theorem declaresField_eq (m : Module) (owner name : String) :
    m.declaresField owner name =
      ((m.fieldsOf owner).map fun fields => fields.any fun f => f.name == name).getD false := by
  rw [declaresField, fieldsOf, Option.map_map]
  rfl

theorem fieldsOf_modifyType {m : Module} {name : String} {f : TypeDef → TypeDef}
    (kept : ∀ t, (f t).fields = t.fields) (name' : String) :
    (m.modifyType name f).fieldsOf name' = m.fieldsOf name' := by
  rw [fieldsOf, fieldsOf, findType?_modifyType, Option.map_map]
  congr 1
  funext t
  rw [Function.comp_apply, changeNamed]
  split
  · exact kept t
  · rfl

theorem fieldsOf_modifyMethod (m : Module) (key : MethodKey) (f : MethodDef → MethodDef)
    (name : String) : (m.modifyMethod key f).fieldsOf name = m.fieldsOf name :=
  fieldsOf_modifyType (f := fun t => { t with methods := t.methods.modify key.index f })
    (fun _ => rfl) name

theorem fieldsOf_modifyType_of_ne {m : Module} {name name' : String} {f : TypeDef → TypeDef}
    (other : name' ≠ name) : (m.modifyType name f).fieldsOf name' = m.fieldsOf name' := by
  rw [fieldsOf, fieldsOf, findType?_modifyType]
  cases known : m.findType? name' with
  | none => rfl
  | some t =>
    rw [Option.map_some,
      changeNamed_of_ne fun eq => other ((mem_of_findType? known).2.symm.trans eq)]

end Module

end ReleaseWeaver
