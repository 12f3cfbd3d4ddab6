import ReleaseWeaver.Proofs.Metadata.Stores

/-
  What a module and its store say more than once, in agreement. In a module the logs of the members
  list those that are there; in a store each member is with its declaring type alone, and the index
  finds each type. In both, the fields of a type differ in their names, and so do its properties.
  Main statement: all this survives every change.
-/

namespace ReleaseWeaver

theorem nodup_concat {α : Type} {xs : List α} {a : α} (once : xs.Nodup) (new : a ∉ xs) :
    (xs ++ [a]).Nodup := by
  rw [← List.concat_eq_append]
  exact once.concat new

theorem not_mem_map_of_not_any {α : Type} {name : α → String} {taken : String} {xs : List α}
    (free : ¬xs.any (name · == taken) = true) : taken ∉ xs.map name := by
  intro listed
  obtain ⟨x, inside, same⟩ := List.mem_map.1 listed
  exact free (List.any_eq_true.2 ⟨x, inside, beq_iff_eq.2 same⟩)

/-- The names of the members of a type. -/
structure TypeDef.Distinct (t : TypeDef) : Prop where
  fields : (t.fields.map FieldDef.name).Nodup
  properties : (t.properties.map PropertyDef.name).Nodup

/-- The name of the type that a change adds. -/
def Change.newType? : Change → Option String
  | .addType t => some t.definitionName
  | _ => none

namespace Module

variable {m m' : Module} {owner : String}

/-- What an accepted change does to a module. -/
inductive Accepts (m : Module) : Change → Module → Prop where
  | addReference {a} : Accepts m (.addReference a) (m.addReference a)
  | addType {t m'} : m'.types = m.types ++ [t.bare] → m'.methodLog = m.methodLog →
      m'.propertyLog = m.propertyLog → Accepts m (.addType t) m'
  | addMethod {owner t d} : m.findType? owner = some t →
      Accepts m (.addMethod owner d) (m.addMethod owner d)
  | addField {owner t d} : m.findType? owner = some t → m.declaresField owner d.name = false →
      Accepts m (.addField owner d) (m.modifyType owner fun t => { t with
        fields := t.fields ++ [d] })
  | addProperty {owner t d} : m.findType? owner = some t →
      m.declaresProperty owner d.name = false →
      Accepts m (.addProperty owner d)
        { m.modifyType owner fun t => { t with properties := t.properties ++ [d] } with
          propertyLog := m.propertyLog ++ [⟨owner, d.name⟩] }
  | changeMethod {key f} : Accepts m (.changeMethod key f) (m.modifyMethod key f)

theorem accepts_of_change {c : Change} (done : m.change c = .ok m') : m.Accepts c m' := by
  have known_of_isSome {owner : String} {result : Except Refusal Module}
      (done : (if (m.findType? owner).isSome then result else .error (.unknownType owner)) =
        .ok m') : (∃ t, m.findType? owner = some t) ∧ result = .ok m' := by
    split at done
    · next known => exact ⟨Option.isSome_iff_exists.1 known, done⟩
    · cases done
  cases c with
  | addReference a =>
    cases done
    exact .addReference
  | addType t =>
    unfold change addType at done
    dsimp only at done
    split at done
    · cases done
    · cases done
      exact .addType rfl rfl rfl
  | addMethod owner d =>
    obtain ⟨⟨t, known⟩, done⟩ := known_of_isSome done
    cases done
    exact .addMethod known
  | addField owner d =>
    obtain ⟨⟨t, known⟩, done⟩ := known_of_isSome done
    unfold addField at done
    split at done
    · cases done
    · next free =>
      cases done
      exact .addField known (Bool.eq_false_iff.2 free)
  | addProperty owner d =>
    obtain ⟨⟨t, known⟩, done⟩ := known_of_isSome done
    unfold addProperty at done
    split at done
    · cases done
    · next free =>
      cases done
      exact .addProperty known (Bool.eq_false_iff.2 free)
  | changeMethod key f =>
    cases done
    exact .changeMethod

theorem carryOut_cases (m : Module) (c : Change) : (∃ e, m.carryOut c = (.error e, m)) ∨
    ∃ m', m.Accepts c m' ∧ m.carryOut c = (.ok (), m') := by
  rw [carryOut]
  cases done : m.change c with
  | error e => exact .inl ⟨e, rfl⟩
  | ok m' => exact .inr ⟨m', accepts_of_change done, rfl⟩

/-- A type that is accepted comes behind those that are there; no other change adds one. -/
theorem Accepts.names {c : Change} (accepted : m.Accepts c m') :
    m'.types.map TypeDef.definitionName =
      m.types.map TypeDef.definitionName ++ c.newType?.toList := by
  cases accepted with
  | addReference => exact (List.append_nil _).symm
  | addType types _ _ =>
    rw [types, List.map_append]
    rfl
  | addMethod known => exact (m.names_modifyType _ _).trans (List.append_nil _).symm
  | addField known free => exact (m.names_modifyType _ _).trans (List.append_nil _).symm
  | addProperty known free => exact (m.names_modifyType _ _).trans (List.append_nil _).symm
  | changeMethod => exact (m.names_modifyType _ _).trans (List.append_nil _).symm

/-! ## Logs and names -/

/-- The logs list each key that a member has, once, and no member of a type shares its name with
another one of its kind, but for methods. -/
structure Consistent (m : Module) : Prop where
  methodLog : m.methodLog.Nodup
  methods : ∀ key, key ∈ m.methodLog ↔ ∃ d, m.findMethod? key = some d
  propertyLog : m.propertyLog.Nodup
  properties : ∀ key, key ∈ m.propertyLog ↔ m.declaresProperty key.owner key.name = true
  distinct : ∀ t ∈ m.types, t.Distinct

theorem consistent_empty (name : String) : Consistent { name } := by
  refine ⟨List.nodup_nil, fun key => ?_, List.nodup_nil, fun key => ?_, List.forall_mem_nil _⟩
  · simp [findMethod?, findType?]
  · simp [declaresProperty, findType?]

theorem declaresProperty_modifyType {f : TypeDef → TypeDef}
    (kept : ∀ t, (f t).properties = t.properties) (m : Module) (name owner property : String) :
    (m.modifyType name f).declaresProperty owner property = m.declaresProperty owner property := by
  rw [declaresProperty, declaresProperty, findType?_modifyType, Option.map_map]
  congr 2
  funext t
  rw [Function.comp_apply, changeNamed]
  split
  · show (f t).properties.any _ = _
    rw [kept]
  · rfl

theorem findMethod?_modifyType_of_kept {f : TypeDef → TypeDef}
    (kept : ∀ t, (f t).methods = t.methods) (m : Module) (name : String) (key : MethodKey) :
    (m.modifyType name f).findMethod? key = m.findMethod? key := by
  have same : (m.modifyType name f).findMethod? key =
      (m.findMethod? key).map fun d => if key.owner = name then id d else d :=
    findMethod?_modifyType (fun t => (kept t).trans (List.map_id _).symm) key
  simpa only [id, ite_self, Option.map_id'] using same

theorem declaresProperty_append {t : TypeDef} (known : m.findType? owner = some t) (d : PropertyDef)
    (owner' name : String) :
    (m.modifyType owner fun t => { t with properties := t.properties ++ [d] }).declaresProperty
        owner' name = true ↔
      m.declaresProperty owner' name = true ∨ owner' = owner ∧ name = d.name := by
  rw [declaresProperty, declaresProperty, findType?_modifyType]
  by_cases here : owner' = owner
  · subst here
    rw [known, Option.map_some, changeNamed_of_eq (mem_of_findType? known).2]
    show (t.properties ++ [d]).any (·.name == name) = true ↔
      t.properties.any (·.name == name) = true ∨ _
    rw [List.any_append, Bool.or_eq_true]
    simp [eq_comm (a := name)]
  · cases found : m.findType? owner' with
    | none => simp [here]
    | some u =>
      have other : u.definitionName ≠ owner := fun eq =>
        here ((mem_of_findType? found).2.symm.trans eq)
      rw [Option.map_some, changeNamed_of_ne other]
      simp [here]

/-- A change of a type has to be looked at in this type only. -/
theorem distinct_modifyType (consistent : m.Consistent) {f : TypeDef → TypeDef}
    (kept : ∀ t, m.findType? owner = some t → t.Distinct → (f t).Distinct) :
    ∀ t ∈ (m.modifyType owner f).types, t.Distinct := by
  refine List.forall_mem_map.2 fun t listed => ?_
  by_cases here : t.definitionName = owner
  · have known : m.findType? owner = some t := here ▸ findType?_of_mem listed
    obtain ⟨fields, properties⟩ := kept t known (consistent.distinct t listed)
    rw [changeNamed_of_eq here]
    exact ⟨fields, properties⟩
  · rw [changeNamed_of_ne here]
    exact consistent.distinct t listed

theorem findType?_of_append {t : TypeDef} (types : m'.types = m.types ++ [t]) (name : String) :
    m'.findType? name =
      (m.findType? name).or (if t.definitionName = name then some t else none) := by
  rw [findType?, types, List.find?_append, List.find?_singleton]
  simp only [beq_iff_eq]
  rfl

namespace Consistent

variable (consistent : m.Consistent)

include consistent

theorem addType {t : TypeDef} (types : m'.types = m.types ++ [t.bare])
    (methodLog : m'.methodLog = m.methodLog) (propertyLog : m'.propertyLog = m.propertyLog) :
    m'.Consistent := by
  have find := findType?_of_append types
  refine ⟨methodLog ▸ consistent.methodLog, fun key => ?_, propertyLog ▸ consistent.propertyLog,
    fun key => ?_, ?_⟩
  · rw [methodLog, consistent.methods, findMethod?, findMethod?, find]
    cases m.findType? key.owner with
    | some u => rfl
    | none => split <;> simp [TypeDef.bare]
  · rw [propertyLog, consistent.properties, declaresProperty, declaresProperty, find]
    cases m.findType? key.owner with
    | some u => rfl
    | none => split <;> simp [TypeDef.bare]
  · rw [types]
    refine List.forall_mem_append.2 ⟨consistent.distinct, List.forall_mem_singleton.2 ?_⟩
    exact ⟨List.nodup_nil, List.nodup_nil⟩

theorem addMethod {t : TypeDef} (known : m.findType? owner = some t) (d : MethodDef) :
    (m.addMethod owner d).Consistent := by
  have new : m.nextMethodKey owner ∉ m.methodLog := fun listed => by
    obtain ⟨d, found⟩ := (consistent.methods _).1 listed
    rw [findMethod?_nextMethodKey] at found
    cases found
  have declared (key : PropertyKey) := declaresProperty_modifyType
    (f := fun t => { t with methods := t.methods ++ [d] }) (fun _ => rfl) m owner key.owner key.name
  refine ⟨nodup_concat consistent.methodLog new, fun key => ?_, consistent.propertyLog,
    fun key => (consistent.properties key).trans (by rw [← declared key]; rfl), ?_⟩
  · rw [findMethod?_addMethod known]
    show key ∈ m.methodLog ++ [m.nextMethodKey owner] ↔ _
    rw [List.mem_append, List.mem_singleton, consistent.methods]
    split
    · next same => simp [same]
    · next other => simp [other]
  · exact distinct_modifyType consistent fun t _ distinct => ⟨distinct.fields, distinct.properties⟩

theorem addField {d : FieldDef} (free : m.declaresField owner d.name = false) :
    (m.modifyType owner fun t => { t with fields := t.fields ++ [d] }).Consistent := by
  have found (key : MethodKey) := findMethod?_modifyType_of_kept
    (f := fun t => { t with fields := t.fields ++ [d] }) (fun _ => rfl) m owner key
  have declared (key : PropertyKey) := declaresProperty_modifyType
    (f := fun t => { t with fields := t.fields ++ [d] }) (fun _ => rfl) m owner key.owner key.name
  refine ⟨consistent.methodLog, fun key => (consistent.methods key).trans (by rw [found key]),
    consistent.propertyLog, fun key => (consistent.properties key).trans (by rw [declared key]),
    distinct_modifyType consistent fun t known distinct => ⟨?_, distinct.properties⟩⟩
  rw [declaresField, known] at free
  rw [List.map_append]
  exact nodup_concat distinct.fields (not_mem_map_of_not_any (Bool.eq_false_iff.1 free))

theorem addProperty {t : TypeDef} (known : m.findType? owner = some t) {d : PropertyDef}
    (free : m.declaresProperty owner d.name = false) :
    Consistent { m.modifyType owner fun t => { t with properties := t.properties ++ [d] } with
      propertyLog := m.propertyLog ++ [⟨owner, d.name⟩] } := by
  have free := Bool.eq_false_iff.1 free
  have found (key : MethodKey) := findMethod?_modifyType_of_kept
    (f := fun t => { t with properties := t.properties ++ [d] }) (fun _ => rfl) m owner key
  refine ⟨consistent.methodLog,
    fun key => (consistent.methods key).trans (by rw [← found key]; rfl),
    nodup_concat consistent.propertyLog fun listed => free ((consistent.properties _).1 listed),
    fun key => ?_, ?_⟩
  · show key ∈ m.propertyLog ++ [_] ↔ (m.modifyType owner _).declaresProperty _ _ = true
    rw [List.mem_append, List.mem_singleton, consistent.properties,
      declaresProperty_append known, PropertyKey.mk.injEq]
  · refine distinct_modifyType consistent fun u known' distinct => ⟨distinct.fields, ?_⟩
    rw [declaresProperty, known'] at free
    rw [List.map_append]
    exact nodup_concat distinct.properties (not_mem_map_of_not_any free)

theorem changeMethod (key : MethodKey) (f : MethodDef → MethodDef) :
    (m.modifyMethod key f).Consistent := by
  have declared (key' : PropertyKey) := declaresProperty_modifyType
    (f := fun t => { t with methods := t.methods.modify key.index f }) (fun _ => rfl) m key.owner
    key'.owner key'.name
  refine ⟨consistent.methodLog, fun key' => (consistent.methods key').trans ?_,
    consistent.propertyLog,
    fun key' => (consistent.properties key').trans (by rw [← declared key']; rfl),
    distinct_modifyType consistent fun t _ distinct => ⟨distinct.fields, distinct.properties⟩⟩
  rw [findMethod?_modifyMethod]
  cases m.findMethod? key' <;> simp

/-- A change keeps keys and names in order. -/
theorem carryOut (c : Change) : (m.carryOut c).2.Consistent := by
  obtain ⟨e, refused⟩ | ⟨m', accepted, done⟩ := m.carryOut_cases c
  · rw [refused]
    exact consistent
  · rw [done]
    cases accepted with
    | addReference =>
      exact ⟨consistent.methodLog, consistent.methods, consistent.propertyLog,
        consistent.properties, consistent.distinct⟩
    | addType types methodLog propertyLog => exact consistent.addType types methodLog propertyLog
    | addMethod known => exact consistent.addMethod known _
    | addField _ free => exact consistent.addField free
    | addProperty known free => exact consistent.addProperty known free
    | changeMethod => exact consistent.changeMethod _ _

end Consistent

end Module

/-! ## The store -/

/-- What the store says more than once, in agreement: the order lists each type, the index finds the
one of each name, and each member is with its declaring type alone. -/
structure ModuleStore.Consistent (s : ModuleStore) : Prop where
  order : s.order = List.range s.types.length
  names : (s.types.map TypeDef.definitionName).Nodup
  index : ∀ name type, s.findType? name = some type ↔
    s.types[type]?.map TypeDef.definitionName = some name
  methods : s.methods.Owned s.types.length
  fields : s.fields.Owned s.types.length
  properties : s.properties.Owned s.types.length
  fieldNames : ∀ type, ((s.fields.of type).map FieldDef.name).Nodup
  propertyNames : ∀ type, ((s.properties.of type).map PropertyDef.name).Nodup

namespace ModuleStore

variable {s : ModuleStore} {m : Module}

theorem Represents.names (represents : s.Represents m) :
    s.types.map TypeDef.definitionName = m.types.map TypeDef.definitionName := by
  rw [represents.types, List.map_map]
  rfl

/-- A store of a consistent module is consistent. -/
theorem Represents.consistent (represents : s.Represents m) (keyed : s.Keyed)
    (consistent : m.Consistent) : s.Consistent := by
  have count : s.types.length = m.types.length := by rw [represents.types, List.length_map]
  obtain ⟨methods, fields, properties⟩ := represents.length_lists
  have each {α : Type} {a : Arena α} {g : TypeDef → List α} {name : α → String}
      (all : a.all = m.types.map g) (distinct : ∀ t ∈ m.types, ((g t).map name).Nodup)
      (type : Nat) : ((a.of type).map name).Nodup := by
    rw [a.of_eq, all, List.getElem?_map]
    cases here : m.types[type]? with
    | none => exact List.nodup_nil
    | some t => exact distinct t (List.mem_of_getElem? here)
  refine ⟨count ▸ represents.order, represents.names ▸ m.names_nodup, fun name type => ?_,
    (count.trans methods.symm) ▸ keyed.methods.owned,
    (count.trans fields.symm) ▸ keyed.fields.owned,
    (count.trans properties.symm) ▸ keyed.properties.owned,
    each represents.fields fun t listed => (consistent.distinct t listed).fields,
    each represents.properties fun t listed => (consistent.distinct t listed).properties⟩
  rw [represents.index, ← List.getElem?_map, represents.names, List.getElem?_map,
    Option.map_eq_some_iff]

end ModuleStore

end ReleaseWeaver
