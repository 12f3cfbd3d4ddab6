import ReleaseWeaver.Proofs.Weave.Failures

/-
  Selection, told from the attributes alone. The table of markers is only a way there: what a family
  selects, and what is in its scope, are lists that are filtered by whether an attribute of the
  family's name is on the type or on the member. The name of the other family does not come into
  this, but for one thing: an attribute stands for one family only, so a name that both families
  have been given is the handle family's, and the command family selects nothing.
  Main statement: each family selects, in order, the types that its attribute is on or in, and takes
  in their members accordingly.
-/

namespace ReleaseWeaver

/-- The attribute of a family. -/
def MarkerNames.nameOf (names : MarkerNames) : Family → String
  | .trackHandles => names.trackHandles
  | .releaseCommands => names.releaseCommands

/-- One of the attributes has this definition name. -/
def Carries (marker : String) (attributes : List TypeRef) : Bool :=
  attributes.any fun a => a.definitionName == marker

theorem carries_iff {marker : String} {attributes : List TypeRef} :
    Carries marker attributes = true ↔ ∃ a ∈ attributes, a.definitionName = marker := by
  simp [Carries]

namespace TypeDef

/-- A property of this name carries the marker; a type has at most one property of a name. -/
def propertyCarries (t : TypeDef) (marker name : String) : Bool :=
  t.properties.any fun p => p.name == name && Carries marker p.attributes

/-- The type, or a member of the family's sort, carries the marker. -/
def isChosen (t : TypeDef) (family : Family) (marker : String) : Bool :=
  Carries marker t.attributes || match family with
    | .trackHandles => t.methods.any fun d => Carries marker d.attributes
    | .releaseCommands => t.properties.any fun p => Carries marker p.attributes

end TypeDef

/-- The members of a type that are in the scope of a target, and the marked ones that are not. -/
structure Target.ScopedBy (target : Target) (table : MarkerTable) (marker : String)
    (t : TypeDef) : Prop where
  methods : target.family = .trackHandles → target.methods table t =
    t.keyedMethods.filter fun (_, d) =>
      !d.isStatic && d.hasBody && (Carries marker t.attributes || Carries marker d.attributes)
  excluded : target.family = .trackHandles → target.excludedMethods table t =
    t.keyedMethods.filter fun (_, d) =>
      Carries marker d.attributes && (d.isStatic || !d.hasBody)
  /-- A marked method is in the one list or in the other. -/
  either : target.family = .trackHandles → ∀ method ∈ t.keyedMethods,
    Carries marker method.2.attributes = true →
      Xor (method ∈ target.methods table t) (method ∈ target.excludedMethods table t)
  properties : target.family = .releaseCommands → target.properties table t =
    t.keyedProperties.filter fun (key, _) =>
      Carries marker t.attributes || t.propertyCarries marker key.name

/-- A table leads to the targets of a family that an attribute marks. -/
structure MarkerTable.Selects (table : MarkerTable) (m : Module) (family : Family)
    (marker : String) : Prop where
  targets : Target.select m table family =
    (m.localTypes.filter fun t => t.isChosen family marker).map fun t =>
      ⟨t.definitionName, family, Carries marker t.attributes⟩
  once : ((Target.select m table family).map Target.typeName).Nodup
  scopes : ∀ target ∈ Target.select m table family, ∃ t ∈ m.localTypes,
    m.findType? target.typeName = some t ∧ target.ScopedBy table marker t

/-! ## Marks -/

/-- The family is told from the other one by its attribute. -/
def MarkerNames.Tells (names : MarkerNames) (family : Family) : Prop :=
  family = .releaseCommands → names.trackHandles ≠ names.releaseCommands

theorem MarkerNames.tells_trackHandles (names : MarkerNames) : names.Tells .trackHandles := by
  rintro ⟨⟩

theorem MarkerNames.family?_eq_some {names : MarkerNames} {family : Family}
    (tells : names.Tells family) {a : TypeRef} :
    names.family? a = some family ↔ a.definitionName = names.nameOf family := by
  unfold family?
  cases family with
  | trackHandles =>
    by_cases same : a.definitionName = names.trackHandles
    · simp [nameOf, same]
    · simp [nameOf, same]
  | releaseCommands =>
    have apart := tells rfl
    by_cases same : a.definitionName = names.trackHandles
    · simp [nameOf, same, apart]
    · simp [nameOf, same]

/-- An attribute of both families stands for the handle family. -/
theorem MarkerNames.family?_ne_releaseCommands {names : MarkerNames}
    (shared : names.trackHandles = names.releaseCommands) (a : TypeRef) :
    names.family? a ≠ some .releaseCommands := by
  unfold family?
  rw [shared]
  split
  · simp
  · simp

namespace MarkerTable

variable {m : Module} {names : MarkerNames} {family : Family} {t : TypeDef}

theorem mem_marks {carrier carrier' : Carrier} {attributes : List TypeRef} :
    (carrier', family) ∈ marks names carrier attributes ↔
      carrier' = carrier ∧ ∃ a ∈ attributes, names.family? a = some family := by
  simp only [marks, List.mem_map, List.mem_filterMap, Prod.mk.injEq]
  constructor
  · rintro ⟨_, marked, rfl, rfl⟩
    exact ⟨rfl, marked⟩
  · rintro ⟨rfl, marked⟩
    exact ⟨family, marked, rfl, rfl⟩

theorem mem_marks_iff (tells : names.Tells family) {carrier carrier' : Carrier}
    {attributes : List TypeRef} : (carrier', family) ∈ marks names carrier attributes ↔
      carrier' = carrier ∧ Carries (names.nameOf family) attributes = true := by
  simp only [mem_marks, carries_iff, MarkerNames.family?_eq_some tells]

theorem mem_localTypes : t ∈ m.localTypes ↔ t ∈ m.types ∧ t.isLocal = true := List.mem_filter

theorem contains_iff {carrier : Carrier} : (collect m names).contains carrier family = true ↔
    (∃ t ∈ m.localTypes, (carrier, family) ∈ marksOfType names t) ∧
      family.attachesTo carrier = true := by
  rw [contains, List.contains_iff_mem, mem_collect]
  simp only [mem_localTypes, and_assoc]

theorem mem_marksOfType {carrier : Carrier} : (carrier, family) ∈ marksOfType names t ↔
    (carrier, family) ∈ marks names (.type t.definitionName) t.attributes ∨
      (∃ method ∈ t.keyedMethods,
        (carrier, family) ∈ marks names (.method method.1) method.2.attributes) ∨
      ∃ property ∈ t.keyedProperties,
        (carrier, family) ∈ marks names (.property property.1) property.2.attributes := by
  simp only [marksOfType, List.mem_append, List.mem_flatMap, or_assoc]

/-- A type is told by its name. -/
theorem eq_of_definitionName {u : TypeDef} (listed : t ∈ m.localTypes) (listed' : u ∈ m.localTypes)
    (same : u.definitionName = t.definitionName) : u = t :=
  List.inj_on_of_nodup_map m.names_nodup (mem_localTypes.1 listed').1 (mem_localTypes.1 listed).1
    same

theorem contains_type (tells : names.Tells family) (listed : t ∈ m.localTypes) :
    (collect m names).contains (.type t.definitionName) family =
      Carries (names.nameOf family) t.attributes := by
  rw [Bool.eq_iff_iff, contains_iff]
  constructor
  · rintro ⟨⟨u, listed', marked⟩, _⟩
    obtain on_type | ⟨_, _, on_member⟩ | ⟨_, _, on_member⟩ := mem_marksOfType.1 marked
    · obtain ⟨same, carries⟩ := (mem_marks_iff tells).1 on_type
      rw [eq_of_definitionName listed listed' (Carrier.type.inj same).symm] at carries
      exact carries
    · cases (mem_marks.1 on_member).1
    · cases (mem_marks.1 on_member).1
  · intro carries
    exact ⟨⟨t, listed, mem_marksOfType.2 (.inl ((mem_marks_iff tells).2 ⟨rfl, carries⟩))⟩,
      by cases family <;> rfl⟩

theorem contains_method (listed : t ∈ m.localTypes) {key : MethodKey} {d : MethodDef}
    (keyed : (key, d) ∈ t.keyedMethods) :
    (collect m names).contains (.method key) .trackHandles =
      Carries names.trackHandles d.attributes := by
  have tells := names.tells_trackHandles
  obtain ⟨owner, there⟩ := TypeDef.mem_keyedMethods.1 keyed
  rw [Bool.eq_iff_iff, contains_iff]
  constructor
  · rintro ⟨⟨u, listed', marked⟩, _⟩
    obtain on_type | ⟨⟨key', d'⟩, keyed', on_method⟩ | ⟨_, _, on_property⟩ :=
      mem_marksOfType.1 marked
    · cases (mem_marks.1 on_type).1
    · obtain ⟨same, carries⟩ := (mem_marks_iff tells).1 on_method
      cases same
      obtain ⟨owner', there'⟩ := TypeDef.mem_keyedMethods.1 keyed'
      rw [eq_of_definitionName listed listed' (owner'.symm.trans owner), there] at there'
      cases there'
      exact carries
    · cases (mem_marks.1 on_property).1
  · intro carries
    exact ⟨⟨t, listed, mem_marksOfType.2 (.inr (.inl
      ⟨(key, d), keyed, (mem_marks_iff tells).2 ⟨rfl, carries⟩⟩))⟩, rfl⟩

theorem contains_property (tells : names.Tells .releaseCommands) (listed : t ∈ m.localTypes)
    {key : PropertyKey} (owner : key.owner = t.definitionName) :
    (collect m names).contains (.property key) .releaseCommands =
      t.propertyCarries names.releaseCommands key.name := by
  rw [Bool.eq_iff_iff, contains_iff, TypeDef.propertyCarries]
  simp only [List.any_eq_true, Bool.and_eq_true, beq_iff_eq]
  constructor
  · rintro ⟨⟨u, listed', marked⟩, _⟩
    obtain on_type | ⟨_, _, on_method⟩ | ⟨property, keyed, on_property⟩ :=
      mem_marksOfType.1 marked
    · cases (mem_marks.1 on_type).1
    · cases (mem_marks.1 on_method).1
    · obtain ⟨same, carries⟩ := (mem_marks_iff tells).1 on_property
      obtain ⟨p, declared, rfl⟩ := List.mem_map.1 keyed
      cases same
      cases eq_of_definitionName listed listed' owner
      exact ⟨p, declared, rfl, carries⟩
  · rintro ⟨p, declared, named, carries⟩
    refine ⟨⟨t, listed, mem_marksOfType.2 (.inr (.inr
      ⟨_, List.mem_map_of_mem declared, (mem_marks_iff tells).2 ⟨?_, carries⟩⟩))⟩, rfl⟩
    rw [named, ← owner]

/-! ## Targets -/

theorem marksMember_eq (tells : names.Tells family) (listed : t ∈ m.localTypes) :
    (collect m names).marksMember family t = match family with
      | .trackHandles => t.methods.any fun d => Carries names.trackHandles d.attributes
      | .releaseCommands =>
        t.properties.any fun p => Carries names.releaseCommands p.attributes := by
  cases family with
  | trackHandles =>
    have methods : t.methods.any (fun d => Carries names.trackHandles d.attributes) =
        t.keyedMethods.any fun method => Carries names.trackHandles method.2.attributes := by
      rw [← t.map_snd_keyedMethods, List.any_map]
      rfl
    rw [methods, Bool.eq_iff_iff, marksMember, List.any_eq_true, List.any_eq_true]
    refine exists_congr fun (key, d) => and_congr_right fun keyed => ?_
    dsimp only
    rw [contains_method listed keyed]
  | releaseCommands =>
    rw [Bool.eq_iff_iff, marksMember]
    simp only [TypeDef.keyedProperties, List.any_map, List.any_eq_true, Function.comp]
    constructor
    · rintro ⟨p, declared, marked⟩
      rw [contains_property tells listed rfl, TypeDef.propertyCarries, List.any_eq_true] at marked
      obtain ⟨q, declared', both⟩ := marked
      exact ⟨q, declared', (Bool.and_eq_true_iff.1 both).2⟩
    · rintro ⟨p, declared, carries⟩
      refine ⟨p, declared, ?_⟩
      rw [contains_property tells listed rfl, TypeDef.propertyCarries, List.any_eq_true]
      exact ⟨p, declared, by rw [carries]; simp⟩

theorem ofType?_collect (tells : names.Tells family) (listed : t ∈ m.localTypes) :
    Target.ofType? (collect m names) family t =
      if t.isChosen family (names.nameOf family) then
        some ⟨t.definitionName, family, Carries (names.nameOf family) t.attributes⟩
      else none := by
  rw [Target.ofType?, contains_type tells listed, marksMember_eq tells listed]
  unfold TypeDef.isChosen
  cases family <;> rfl

theorem select_collect (tells : names.Tells family) :
    Target.select m (collect m names) family =
      (m.localTypes.filter fun t => t.isChosen family (names.nameOf family)).map fun t =>
        ⟨t.definitionName, family, Carries (names.nameOf family) t.attributes⟩ := by
  rw [Target.select, List.filterMap_congr fun t listed => ofType?_collect tells listed,
    ← List.filterMap_eq_filter, ← List.filterMap_eq_map, List.filterMap_filterMap]
  refine List.filterMap_congr fun t _ => ?_
  by_cases chosen : t.isChosen family (names.nameOf family) = true
  · simp [Option.guard, chosen]
  · simp [Option.guard, chosen]

variable {name : String} {wide : Bool}

theorem methods_collect (listed : t ∈ m.localTypes) :
    Target.methods ⟨name, .trackHandles, wide⟩ (collect m names) t =
      t.keyedMethods.filter fun (_, d) =>
        !d.isStatic && d.hasBody && (wide || Carries names.trackHandles d.attributes) := by
  refine List.filter_congr fun (key, d) keyed => ?_
  dsimp only
  rw [contains_method listed keyed, MethodDef.isInstanceWithBody]

theorem excludedMethods_collect (listed : t ∈ m.localTypes) :
    Target.excludedMethods ⟨name, .trackHandles, wide⟩ (collect m names) t =
      t.keyedMethods.filter fun (_, d) =>
        Carries names.trackHandles d.attributes && (d.isStatic || !d.hasBody) := by
  refine List.filter_congr fun (key, d) keyed => ?_
  dsimp only
  rw [contains_method listed keyed, MethodDef.isInstanceWithBody, Bool.not_and, Bool.not_not,
    Bool.and_comm]

theorem properties_collect (tells : names.Tells .releaseCommands) (listed : t ∈ m.localTypes) :
    Target.properties ⟨name, .releaseCommands, wide⟩ (collect m names) t =
      t.keyedProperties.filter fun (key, _) =>
        wide || t.propertyCarries names.releaseCommands key.name := by
  refine List.filter_congr fun (key, p) keyed => ?_
  obtain ⟨_, _, same⟩ := List.mem_map.1 keyed
  cases same
  dsimp only
  rw [contains_property tells listed rfl]

theorem scopedBy_collect (tells : names.Tells family) (listed : t ∈ m.localTypes) :
    Target.ScopedBy ⟨t.definitionName, family, Carries (names.nameOf family) t.attributes⟩
      (collect m names) (names.nameOf family) t where
  methods := by
    rintro ⟨⟩
    exact methods_collect listed
  excluded := by
    rintro ⟨⟩
    exact excludedMethods_collect listed
  either := by
    rintro ⟨⟩ ⟨key, d⟩ keyed carries
    have carries : Carries names.trackHandles d.attributes = true := carries
    rw [methods_collect listed, excludedMethods_collect listed, List.mem_filter, List.mem_filter]
    cases static : d.isStatic <;> cases body : d.hasBody <;>
      simp [Xor, keyed, carries, static, body]
  properties := by
    rintro ⟨⟩
    exact properties_collect tells listed

theorem selects_of_tells (tells : names.Tells family) :
    (collect m names).Selects m family (names.nameOf family) where
  targets := select_collect tells
  once := Target.nodup_select m (collect m names) family
  scopes := by
    intro target selected
    rw [select_collect tells] at selected
    obtain ⟨t, chosen, rfl⟩ := List.mem_map.1 selected
    have listed := (List.mem_filter.1 chosen).1
    exact ⟨t, listed, Module.findType?_of_mem (mem_localTypes.1 listed).1,
      scopedBy_collect tells listed⟩

/-- A name that both families have been given is never the command family's. -/
theorem hasFamily_of_shared (shared : names.trackHandles = names.releaseCommands) :
    (collect m names).hasFamily .releaseCommands = false := by
  rw [Bool.eq_false_iff]
  intro present
  obtain ⟨carrier, recorded⟩ := hasFamily_iff.1 present
  obtain ⟨⟨t, _, marked⟩, _⟩ := contains_iff.1 recorded
  have unmarked {carrier carrier' : Carrier} {attributes : List TypeRef} :
      (carrier', Family.releaseCommands) ∉ marks names carrier attributes := fun marked => by
    obtain ⟨_, a, _, told⟩ := mem_marks.1 marked
    exact MarkerNames.family?_ne_releaseCommands shared a told
  obtain on_type | ⟨_, _, on_method⟩ | ⟨_, _, on_property⟩ := mem_marksOfType.1 marked
  · exact unmarked on_type
  · exact unmarked on_method
  · exact unmarked on_property

/-- What a family selects depends on the attributes of its own name only, as long as that is not
the other family's as well. If it is, the command family selects nothing. -/
theorem selects_collect (m : Module) (names : MarkerNames) :
    (collect m names).Selects m .trackHandles names.trackHandles ∧
      (names.trackHandles ≠ names.releaseCommands →
        (collect m names).Selects m .releaseCommands names.releaseCommands) ∧
      (names.trackHandles = names.releaseCommands →
        Target.select m (collect m names) .releaseCommands = []) :=
  ⟨selects_of_tells names.tells_trackHandles, fun apart => selects_of_tells fun _ => apart,
    fun shared => Weave.select_eq_nil (hasFamily_of_shared shared)⟩

end MarkerTable

/-- A class with marks of several names on itself, on its methods and on its properties. -/
def Sample.markedPanel : Module where
  name := "App"
  types := [{
    ns := "App", name := "Panel", attributes := [.plain "App" "Mark"]
    methods := [
      { name := "Listen", attributes := [.plain "App" "Track"], body := some (.ofInstrs [.ret]) },
      { name := "Poll", attributes := [.plain "App" "Track"], flags := { isStatic := true },
        body := some (.ofInstrs [.ret]) },
      { name := "Reset", body := some (.ofInstrs [.ret]) }]
    properties := [
      { name := "Refresh", type := .plain "App" "Command", attributes := [.plain "App" "Release"] },
      { name := "Title", type := .plain "System" "String" }] }]
  methodLog := [⟨"App.Panel", 0⟩, ⟨"App.Panel", 1⟩, ⟨"App.Panel", 2⟩]
  propertyLog := [⟨"App.Panel", "Refresh"⟩, ⟨"App.Panel", "Title"⟩]

theorem MarkerTable.selects_collect_panel :
    let names : MarkerNames := ⟨"App.Track", "App.Release"⟩
    let table := collect Sample.markedPanel names
    names.trackHandles ≠ names.releaseCommands ∧
      table.Selects Sample.markedPanel .trackHandles names.trackHandles ∧
      table.Selects Sample.markedPanel .releaseCommands names.releaseCommands :=
  have told := selects_collect Sample.markedPanel ⟨"App.Track", "App.Release"⟩
  ⟨by decide, told.1, told.2.1 (by decide)⟩

/-- A class that carries the name of both families is no target of the command family. -/
theorem MarkerTable.not_selects_shared :
    let names : MarkerNames := ⟨"App.Mark", "App.Mark"⟩
    ¬(collect Sample.markedPanel names).Selects Sample.markedPanel .releaseCommands
      names.releaseCommands :=
  fun selects => absurd selects.targets (by decide)

end ReleaseWeaver
