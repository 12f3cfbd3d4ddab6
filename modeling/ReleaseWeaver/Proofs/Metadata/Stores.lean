import ReleaseWeaver.Proofs.Metadata.Arenas
import ReleaseWeaver.Proofs.Metadata.Changes

/-
  How a module is stored: an arena for each kind of member, the types under their keys and the order
  that they came in, and an index from names to types. Main statement: a change does the same to the
  store as to the module, and is refused by both alike.
-/

namespace ReleaseWeaver

/-- A type without its members. -/
def TypeDef.bare (t : TypeDef) : TypeDef := { t with fields := [], methods := [], properties := [] }

/-! ## Changes -/

/-- A change that is asked of a module. -/
inductive Change where
  | addReference (a : AssemblyRef)
  | addType (t : TypeDef)
  | addMethod (owner : String) (d : MethodDef)
  | addField (owner : String) (d : FieldDef)
  | addProperty (owner : String) (d : PropertyDef)
  /-- A method is changed where it stands. -/
  | changeMethod (key : MethodKey) (f : MethodDef → MethodDef)

inductive Refusal where
  | unknownType (name : String)
  | duplicate (e : DuplicateError)
deriving DecidableEq, Repr

namespace Module

def change (m : Module) : Change → Except Refusal Module
  | .addReference a => .ok (m.addReference a)
  | .addType t => (m.addType t).mapError .duplicate
  | .addMethod owner d =>
    if (m.findType? owner).isSome then .ok (m.addMethod owner d) else .error (.unknownType owner)
  | .addField owner d =>
    if (m.findType? owner).isSome then (m.addField owner d).mapError .duplicate
    else .error (.unknownType owner)
  | .addProperty owner d =>
    if (m.findType? owner).isSome then (m.addProperty owner d).mapError .duplicate
    else .error (.unknownType owner)
  | .changeMethod key f => .ok (m.modifyMethod key f)

/-- Go on with what a change makes of a module, or stay if it is refused. -/
def settle (m : Module) : Except Refusal Module → Except Refusal Unit × Module
  | .ok m' => (.ok (), m')
  | .error e => (.error e, m)

def carryOut (m : Module) (c : Change) : Except Refusal Unit × Module := m.settle (m.change c)

end Module

/-- A module as it is stored. -/
structure ModuleStore where
  references : List AssemblyRef := []
  /-- The types without their members, under their keys. -/
  types : List TypeDef := []
  order : List Nat := []
  index : List (String × Nat) := []
  methods : Arena MethodDef := {}
  fields : Arena FieldDef := {}
  properties : Arena PropertyDef := {}

namespace ModuleStore

def findType? (s : ModuleStore) (name : String) : Option Nat := s.index.lookup name

def nameOf (s : ModuleStore) (type : Nat) : String :=
  (s.types[type]?.map TypeDef.definitionName).getD ""

/-- The key of a method of the module. -/
def methodKey? (s : ModuleStore) (key : MethodKey) : Option Nat :=
  (s.findType? key.owner).bind fun type => (s.methods.keysOf type)[key.index]?

def addType (s : ModuleStore) (t : TypeDef) : Except DuplicateError Nat × ModuleStore :=
  if (s.findType? t.definitionName).isSome then (.error (.type t.definitionName), s)
  else (.ok s.types.length,
    { references := s.references
      types := s.types ++ [t.bare]
      order := s.order ++ [s.types.length]
      index := (t.definitionName, s.types.length) :: s.index
      methods := s.methods.extend
      fields := s.fields.extend
      properties := s.properties.extend })

def addMethod (s : ModuleStore) (type : Nat) (d : MethodDef) : Nat × ModuleStore :=
  (s.methods.entries.length, { s with methods := s.methods.attach type d })

def addField (s : ModuleStore) (type : Nat) (d : FieldDef) :
    Except DuplicateError Nat × ModuleStore :=
  match s.fields.attachNamed? FieldDef.name type d with
  | some fields => (.ok s.fields.entries.length, { s with fields })
  | none => (.error (.member (s.nameOf type) d.name), s)

def addProperty (s : ModuleStore) (type : Nat) (d : PropertyDef) :
    Except DuplicateError Nat × ModuleStore :=
  match s.properties.attachNamed? PropertyDef.name type d with
  | some properties => (.ok s.properties.entries.length, { s with properties })
  | none => (.error (.member (s.nameOf type) d.name), s)

/-- Do something with a type, if there is one of this name. -/
def withType (s : ModuleStore) (owner : String)
    (act : Nat → Except Refusal Unit × ModuleStore) : Except Refusal Unit × ModuleStore :=
  match s.findType? owner with
  | some type => act type
  | none => (.error (.unknownType owner), s)

/-- A reply to a host that has no use for the key. -/
def reply : Except DuplicateError Nat × ModuleStore → Except Refusal Unit × ModuleStore :=
  Prod.map (fun result => (result.map fun _ => ()).mapError .duplicate) id

def carryOut (s : ModuleStore) : Change → Except Refusal Unit × ModuleStore
  | .addReference a => (.ok (), { s with references := s.references ++ [a] })
  | .addType t => reply (s.addType t)
  | .addMethod owner d => s.withType owner fun type => (.ok (), (s.addMethod type d).2)
  | .addField owner d => s.withType owner fun type => reply (s.addField type d)
  | .addProperty owner d => s.withType owner fun type => reply (s.addProperty type d)
  | .changeMethod key f => (.ok (), match s.methodKey? key with
    | some slot => { s with methods := s.methods.modify slot f }
    | none => s)

/-- The store says the same as the module. -/
structure Represents (s : ModuleStore) (m : Module) : Prop where
  references : s.references = m.references
  types : s.types = m.types.map TypeDef.bare
  order : s.order = List.range m.types.length
  index : ∀ name type, s.findType? name = some type ↔
    ∃ t, m.types[type]? = some t ∧ t.definitionName = name
  methods : s.methods.all = m.types.map TypeDef.methods
  fields : s.fields.all = m.types.map TypeDef.fields
  properties : s.properties.all = m.types.map TypeDef.properties

/-- The keys of the members of a store go together. -/
structure Keyed (s : ModuleStore) : Prop where
  methods : s.methods.Consistent
  fields : s.fields.Consistent
  properties : s.properties.Consistent

/-- The same answer, and a store that still says the same as the module. -/
structure Alike (a : Except Refusal Unit × ModuleStore) (b : Except Refusal Unit × Module) :
    Prop where
  answer : a.1 = b.1
  represents : a.2.Represents b.2
  keyed : a.2.Keyed

end ModuleStore

/-! ## One place in a list -/

theorem getElem?_concat_eq_some {α : Type} {xs : List α} {a b : α} {k : Nat} :
    (xs ++ [a])[k]? = some b ↔ xs[k]? = some b ∨ k = xs.length ∧ b = a := by
  by_cases last : k = xs.length
  · subst last
    rw [List.getElem?_concat_length, List.getElem?_eq_none (Nat.le_refl _)]
    simp [eq_comm]
  · rw [List.getElem?_append]
    split
    · simp [last]
    · next beyond =>
      rw [List.getElem?_eq_none (Nat.not_lt.1 beyond), List.getElem?_eq_none (by simp; omega)]
      simp [last]

theorem map_modify_of_comm {α β : Type} {f : α → α} {g : α → β} {h : β → β}
    (comm : ∀ a, g (f a) = h (g a)) (xs : List α) (k : Nat) :
    (xs.modify k f).map g = (xs.map g).modify k h := by
  refine List.ext_getElem? fun j => ?_
  rw [List.getElem?_map, List.getElem?_modify, List.getElem?_modify, List.getElem?_map]
  cases xs[j]? with
  | none => rfl
  | some a => by_cases same : k = j <;> simp [same, comm]

namespace Module

variable {m : Module} {t : TypeDef} {f : TypeDef → TypeDef} {k : Nat}

theorem names_modifyType (m : Module) (name : String) (f : TypeDef → TypeDef) :
    (m.modifyType name f).types.map TypeDef.definitionName =
      m.types.map TypeDef.definitionName := by
  show (m.types.map (changeNamed name f)).map TypeDef.definitionName = _
  rw [List.map_map]
  exact List.map_congr_left fun t _ => definitionName_changeNamed name f t

/-- A change of a type that is neither renamed nor given new members is one at its place. -/
theorem types_modifyType (here : m.types[k]? = some t) (bare : ∀ t, (f t).bare = t.bare) :
    (m.modifyType t.definitionName f).types = m.types.modify k f := by
  refine List.ext_getElem? fun j => ?_
  show (m.types.map (changeNamed t.definitionName f))[j]? = _
  rw [List.getElem?_map, List.getElem?_modify]
  cases there : m.types[j]? with
  | none => rfl
  | some u =>
    by_cases same : k = j
    · subst same
      rw [here] at there
      cases there
      have kept := bare t
      simp only [TypeDef.bare, TypeDef.mk.injEq] at kept
      simp only [if_true, Option.map_eq_map, Option.map_some, changeNamed_of_eq rfl]
      rw [← kept.1, ← kept.2.1]
    · have other : u.definitionName ≠ t.definitionName := fun eq => by
        have inside : k < (m.types.map TypeDef.definitionName).length := by
          rw [List.length_map]
          exact (List.getElem?_eq_some_iff.1 here).1
        refine same ((List.getElem?_inj inside m.names_nodup).1 ?_)
        rw [List.getElem?_map, List.getElem?_map, here, there, Option.map_some, Option.map_some, eq]
      simp only [same, if_false, Option.map_eq_map, Option.map_some, changeNamed_of_ne other]

end Module

namespace ModuleStore

section ChangedAt

variable {α : Type} {k : Nat} {f : TypeDef → TypeDef} {members : TypeDef → List α} {a a' : Arena α}

/-- The members of one kind are changed at one place as a change of a type changes them. -/
def ChangedAt (k : Nat) (f : TypeDef → TypeDef) (members : TypeDef → List α) (a a' : Arena α) :
    Prop :=
  ∃ change, a'.all = a.all.modify k change ∧ ∀ t, members (f t) = change (members t)

theorem changedAt_same (kept : ∀ t, members (f t) = members t) : ChangedAt k f members a a :=
  ⟨id, (List.modify_id _ _).symm, kept⟩

theorem ChangedAt.all {types : List TypeDef} (changed : ChangedAt k f members a a')
    (old : a.all = types.map members) : a'.all = (types.modify k f).map members := by
  obtain ⟨change, new, each⟩ := changed
  rw [new, old, map_modify_of_comm each]

end ChangedAt

namespace Represents

variable {s : ModuleStore} {m : Module} {t : TypeDef} {name : String} {k : Nat}
  (represents : s.Represents m)

include represents

theorem length_lists : s.methods.lists.length = m.types.length ∧
    s.fields.lists.length = m.types.length ∧ s.properties.lists.length = m.types.length := by
  have count {α : Type} {a : Arena α} {g : TypeDef → List α} (all : a.all = m.types.map g) :
      a.lists.length = m.types.length := by
    rw [← a.length_all, all, List.length_map]
  exact ⟨count represents.methods, count represents.fields, count represents.properties⟩

/-- A type is found under its key and as it is, or not at all. -/
theorem find (name : String) : (s.findType? name = none ∧ m.findType? name = none) ∨
    ∃ k t, s.findType? name = some k ∧ m.types[k]? = some t ∧ m.findType? name = some t ∧
      t.definitionName = name := by
  cases known : s.findType? name with
  | none =>
    refine .inl ⟨rfl, ?_⟩
    cases found : m.findType? name with
    | none => rfl
    | some t =>
      obtain ⟨listed, named⟩ := Module.mem_of_findType? found
      obtain ⟨k, here⟩ := List.mem_iff_getElem?.1 listed
      rw [(represents.index name k).2 ⟨t, here, named⟩] at known
      cases known
  | some k =>
    obtain ⟨t, here, named⟩ := (represents.index name k).1 known
    refine .inr ⟨k, t, rfl, here, ?_, named⟩
    exact named ▸ Module.findType?_of_mem (List.mem_of_getElem? here)

theorem isSome_findType? (name : String) :
    (s.findType? name).isSome = (m.findType? name).isSome := by
  obtain ⟨unknown, unknown'⟩ | ⟨k, t, known, _, found, _⟩ := represents.find name
  · rw [unknown, unknown']
    rfl
  · rw [known, found]
    rfl

/-- What changes is the members of one type. -/
theorem modifyType (here : m.types[k]? = some t) {f : TypeDef → TypeDef}
    (bare : ∀ t, (f t).bare = t.bare) {methods : Arena MethodDef} {fields : Arena FieldDef}
    {properties : Arena PropertyDef}
    (newMethods : ChangedAt k f TypeDef.methods s.methods methods)
    (newFields : ChangedAt k f TypeDef.fields s.fields fields)
    (newProperties : ChangedAt k f TypeDef.properties s.properties properties) :
    Represents { s with methods, fields, properties } (m.modifyType t.definitionName f) := by
  have types := Module.types_modifyType here bare
  have count : (m.modifyType t.definitionName f).types.length = m.types.length := List.length_map _
  refine ⟨represents.references, ?_, ?_, fun name j => ?_, ?_, ?_, ?_⟩
  · rw [types, map_modify_of_comm (h := id) bare, List.modify_id]
    exact represents.types
  · rw [count]
    exact represents.order
  · refine (represents.index name j).trans ?_
    have each (types : List TypeDef) : (∃ t, types[j]? = some t ∧ t.definitionName = name) ↔
        (types.map TypeDef.definitionName)[j]? = some name := by
      rw [List.getElem?_map, Option.map_eq_some_iff]
    rw [each, each, Module.names_modifyType]
  · exact types ▸ newMethods.all represents.methods
  · exact types ▸ newFields.all represents.fields
  · exact types ▸ newProperties.all represents.properties

theorem congr {m' : Module} (references : m'.references = m.references)
    (same : m'.types = m.types) : s.Represents m' := by
  obtain ⟨references', types, order, index, methods, fields, properties⟩ := represents
  rw [← same] at types order index methods fields properties
  exact ⟨references'.trans references.symm, types, order, index, methods, fields, properties⟩

theorem addReference (a : AssemblyRef) :
    Represents { s with references := s.references ++ [a] } (m.addReference a) := by
  obtain ⟨references, types, order, index, methods, fields, properties⟩ := represents
  exact ⟨congrArg (· ++ [a]) references, types, order, index, methods, fields, properties⟩

theorem lt_length (here : m.types[k]? = some t) : k < s.methods.lists.length ∧
    k < s.fields.lists.length ∧ k < s.properties.lists.length := by
  have inside := (List.getElem?_eq_some_iff.1 here).1
  obtain ⟨methods, fields, properties⟩ := represents.length_lists
  exact ⟨methods ▸ inside, fields ▸ inside, properties ▸ inside⟩

theorem nameOf (here : m.types[k]? = some t) : s.nameOf k = t.definitionName := by
  rw [ModuleStore.nameOf, represents.types, List.getElem?_map, here]
  rfl

theorem of_fields (here : m.types[k]? = some t) : s.fields.of k = t.fields := by
  rw [Arena.of_eq, represents.fields, List.getElem?_map, here]
  rfl

theorem of_properties (here : m.types[k]? = some t) : s.properties.of k = t.properties := by
  rw [Arena.of_eq, represents.properties, List.getElem?_map, here]
  rfl

/-! ### One change -/

variable (keyed : s.Keyed)

include keyed

/-- Where a type is asked for by its name, the two find the same one or none. -/
theorem withType {owner : String} {act : Nat → Except Refusal Unit × ModuleStore}
    {result : Except Refusal Module}
    (known : ∀ k t, m.types[k]? = some t → t.definitionName = owner →
      m.findType? owner = some t → Alike (act k) (m.settle result)) :
    Alike (s.withType owner act)
      (m.settle (if (m.findType? owner).isSome then result else .error (.unknownType owner))) := by
  unfold ModuleStore.withType
  obtain ⟨unknown, unknown'⟩ | ⟨k, t, found, here, found', named⟩ := represents.find owner
  · rw [unknown, unknown']
    exact ⟨rfl, represents, keyed⟩
  · rw [found, found']
    exact known k t here named found'

/-- A new type comes last in every part. -/
theorem addType (t : TypeDef) :
    Alike (reply (s.addType t)) (m.settle ((m.addType t).mapError .duplicate)) := by
  have known := represents.isSome_findType? t.definitionName
  unfold ModuleStore.addType Module.addType
  split
  · next taken =>
    rw [dif_pos (known ▸ taken)]
    exact ⟨rfl, represents, keyed⟩
  · next fresh =>
    rw [dif_neg (known ▸ fresh)]
    have length : s.types.length = m.types.length := by rw [represents.types, List.length_map]
    have unknown : s.findType? t.definitionName = none := Option.not_isSome_iff_eq_none.1 fresh
    refine ⟨rfl, ⟨represents.references, ?_, ?_, fun name k => ?_, ?_, ?_, ?_⟩,
      keyed.methods.extend, keyed.fields.extend, keyed.properties.extend⟩
    · show s.types ++ [t.bare] = (m.types ++ [t.bare]).map TypeDef.bare
      rw [List.map_append, represents.types]
      rfl
    · show s.order ++ [s.types.length] = List.range (m.types ++ [t.bare]).length
      rw [List.length_append, List.length_singleton, List.range_succ, represents.order, length]
    · show List.lookup name ((t.definitionName, s.types.length) :: s.index) = some k ↔
        ∃ u, (m.types ++ [t.bare])[k]? = some u ∧ u.definitionName = name
      have old := represents.index name k
      simp only [getElem?_concat_eq_some, or_and_right, exists_or]
      rw [List.lookup_cons, ← old]
      by_cases same : name = t.definitionName
      · subst same
        rw [unknown]
        simp [length, eq_comm, TypeDef.bare, TypeDef.definitionName]
      · rw [beq_eq_false_iff_ne.2 same]
        refine ⟨.inl, fun either => either.resolve_right ?_⟩
        rintro ⟨u, ⟨_, rfl⟩, named⟩
        exact same named.symm
    · show s.methods.extend.all = (m.types ++ [t.bare]).map TypeDef.methods
      rw [Arena.all_extend, List.map_append, represents.methods]
      rfl
    · show s.fields.extend.all = (m.types ++ [t.bare]).map TypeDef.fields
      rw [Arena.all_extend, List.map_append, represents.fields]
      rfl
    · show s.properties.extend.all = (m.types ++ [t.bare]).map TypeDef.properties
      rw [Arena.all_extend, List.map_append, represents.properties]
      rfl

theorem addMethod (here : m.types[k]? = some t) (d : MethodDef) :
    Alike (.ok (), (s.addMethod k d).2) (m.settle (.ok (m.addMethod t.definitionName d))) := by
  refine ⟨rfl, ?_, keyed.methods.attach (represents.lt_length here).1 d, keyed.fields,
    keyed.properties⟩
  refine congr (m := m.modifyType t.definitionName _) ?_ rfl rfl
  exact represents.modifyType (f := fun t => { t with methods := t.methods ++ [d] }) here
    (fun _ => rfl) ⟨_, keyed.methods.all_attach k d, fun _ => rfl⟩ (changedAt_same fun _ => rfl)
    (changedAt_same fun _ => rfl)

theorem addField (here : m.types[k]? = some t) (found : m.findType? t.definitionName = some t)
    (d : FieldDef) : Alike (reply (s.addField k d))
      (m.settle ((m.addField t.definitionName d).mapError .duplicate)) := by
  have declared : m.declaresField t.definitionName d.name = t.fields.any (·.name == d.name) := by
    rw [Module.declaresField, found]
    rfl
  rw [ModuleStore.addField, Module.addField, declared, Arena.attachNamed?,
    represents.of_fields here, represents.nameOf here]
  cases t.fields.any (·.name == d.name) with
  | true => exact ⟨rfl, represents, keyed⟩
  | false =>
    refine ⟨rfl, ?_, keyed.methods, keyed.fields.attach (represents.lt_length here).2.1 d,
      keyed.properties⟩
    exact represents.modifyType (f := fun t => { t with fields := t.fields ++ [d] }) here
      (fun _ => rfl) (changedAt_same fun _ => rfl) ⟨_, keyed.fields.all_attach k d, fun _ => rfl⟩
      (changedAt_same fun _ => rfl)

theorem addProperty (here : m.types[k]? = some t) (found : m.findType? t.definitionName = some t)
    (d : PropertyDef) : Alike (reply (s.addProperty k d))
      (m.settle ((m.addProperty t.definitionName d).mapError .duplicate)) := by
  have declared :
      m.declaresProperty t.definitionName d.name = t.properties.any (·.name == d.name) := by
    rw [Module.declaresProperty, found]
    rfl
  rw [ModuleStore.addProperty, Module.addProperty, declared, Arena.attachNamed?,
    represents.of_properties here, represents.nameOf here]
  cases t.properties.any (·.name == d.name) with
  | true => exact ⟨rfl, represents, keyed⟩
  | false =>
    refine ⟨rfl, ?_, keyed.methods, keyed.fields,
      keyed.properties.attach (represents.lt_length here).2.2 d⟩
    refine congr (m := m.modifyType t.definitionName _) ?_ rfl rfl
    exact represents.modifyType (f := fun t => { t with properties := t.properties ++ [d] }) here
      (fun _ => rfl) (changedAt_same fun _ => rfl) (changedAt_same fun _ => rfl)
      ⟨_, keyed.properties.all_attach k d, fun _ => rfl⟩

theorem changeMethod (key : MethodKey) (f : MethodDef → MethodDef) :
    Alike (s.carryOut (.changeMethod key f)) (m.settle (.ok (m.modifyMethod key f))) := by
  obtain ⟨unknown, unknown'⟩ | ⟨k, t, found, here, found', named⟩ := represents.find key.owner
  · have none : s.methodKey? key = .none := by rw [methodKey?, unknown]; rfl
    have same : m.modifyMethod key f = m :=
      Module.modifyMethod_eq_self fun d known => by
        rw [Module.findMethod?, unknown'] at known
        cases known
    rw [same, ModuleStore.carryOut, none]
    exact ⟨rfl, represents, keyed⟩
  · obtain ⟨keys, listed⟩ : ∃ keys, s.methods.lists[k]? = some keys :=
      ⟨_, List.getElem?_eq_getElem (represents.lt_length here).1⟩
    have slot : s.methodKey? key = keys[key.index]? := by
      rw [methodKey?, found, Option.bind_some, Arena.keysOf_of_getElem? listed]
    have members : keys.filterMap s.methods.get? = t.methods := by
      have all := congrArg (·[k]?) represents.methods
      simpa [Arena.all, List.getElem?_map, listed, here] using all
    rw [ModuleStore.carryOut, slot]
    cases there : keys[key.index]? with
    | none =>
      have same : m.modifyMethod key f = m := by
        refine Module.modifyMethod_eq_self fun d known => ?_
        have short : t.methods.length ≤ key.index := by
          rw [← members]
          exact (List.length_filterMap_le _ _).trans (List.getElem?_eq_none_iff.1 there)
        rw [Module.findMethod?, found', Option.bind_some, List.getElem?_eq_none short] at known
        cases known
      rw [same]
      exact ⟨rfl, represents, keyed⟩
    | some slot =>
      refine ⟨rfl, ?_, keyed.methods.modify slot f, keyed.fields, keyed.properties⟩
      show Represents _ (m.modifyType key.owner _)
      rw [← named]
      exact represents.modifyType (f := fun t => { t with methods := t.methods.modify key.index f })
        here (fun _ => rfl) ⟨_, keyed.methods.all_modify listed there f, fun _ => rfl⟩
        (changedAt_same fun _ => rfl) (changedAt_same fun _ => rfl)

/-- A change does the same to the store as to the module. -/
theorem carryOut (c : Change) : Alike (s.carryOut c) (m.carryOut c) := by
  cases c with
  | addReference a =>
    exact ⟨rfl, represents.addReference a, keyed.methods, keyed.fields, keyed.properties⟩
  | addType t => exact represents.addType keyed t
  | addMethod owner d =>
    refine represents.withType keyed fun k t here named _ => ?_
    exact named ▸ represents.addMethod keyed here d
  | addField owner d =>
    refine represents.withType keyed fun k t here named found => ?_
    subst named
    exact represents.addField keyed here found d
  | addProperty owner d =>
    refine represents.withType keyed fun k t here named found => ?_
    subst named
    exact represents.addProperty keyed here found d
  | changeMethod key f => exact represents.changeMethod keyed key f

end Represents

/-! ## Refusals -/

theorem withType_refused {s : ModuleStore} {owner : String}
    {act : Nat → Except Refusal Unit × ModuleStore} {e : Refusal}
    (kept : ∀ type, (act type).1 = .error e → (act type).2 = s)
    (refused : (s.withType owner act).1 = .error e) : (s.withType owner act).2 = s := by
  unfold withType at refused ⊢
  split at refused
  · exact kept _ refused
  · rfl

theorem reply_refused {s : ModuleStore} {result : Except DuplicateError Nat × ModuleStore}
    {e : Refusal} (kept : ∀ e, result.1 = .error e → result.2 = s)
    (refused : (reply result).1 = .error e) : (reply result).2 = s := by
  obtain ⟨answer, s'⟩ := result
  cases answer with
  | ok key => cases refused
  | error e => exact kept e rfl

/-- What is refused leaves the store as it is. -/
theorem carryOut_refused {s : ModuleStore} {c : Change} {e : Refusal}
    (refused : (s.carryOut c).1 = .error e) : (s.carryOut c).2 = s := by
  cases c with
  | addReference a => cases refused
  | addType t =>
    refine reply_refused (fun e refused => ?_) refused
    unfold addType at refused ⊢
    split
    · rfl
    · next fresh =>
      rw [if_neg fresh] at refused
      cases refused
  | addMethod owner d => exact withType_refused (fun _ refused => by cases refused) refused
  | addField owner d =>
    refine withType_refused (fun type => reply_refused fun e refused => ?_) refused
    unfold addField at refused ⊢
    split at refused
    · cases refused
    · rfl
  | addProperty owner d =>
    refine withType_refused (fun type => reply_refused fun e refused => ?_) refused
    unfold addProperty at refused ⊢
    split at refused
    · cases refused
    · rfl
  | changeMethod key f => cases refused

end ModuleStore

/-- What is refused leaves the module as it is. -/
theorem Module.carryOut_refused {m : Module} {c : Change} {e : Refusal}
    (refused : (m.carryOut c).1 = .error e) : (m.carryOut c).2 = m := by
  unfold carryOut settle at refused ⊢
  split at refused
  · cases refused
  · rfl

end ReleaseWeaver
