import ReleaseWeaver.Proofs.Weave.Plans

/-
  The teardown that a type declares: the first one among its methods. An override is one more
  method of its type, and of the other methods it changes flags at most, which have no part in
  what is a teardown.
-/

namespace ReleaseWeaver

namespace MethodDef

variable {d : MethodDef}

/-- The method with none of its flags but those that no weaving changes. -/
def core (d : MethodDef) : MethodDef :=
  { d with flags :=
      { isStatic := d.flags.isStatic, isConstructor := d.flags.isConstructor,
        isFinal := d.flags.isFinal } }

@[simp] theorem body_core (d : MethodDef) : d.core.body = d.body := rfl

theorem body_of_core {d' : MethodDef} (same : d'.core = d.core) : d'.body = d.body := by
  rw [← body_core d', same, body_core]

theorem core_opened (d : MethodDef) : { d with flags := d.flags.opened }.core = d.core := by
  simp [core]

/-- The reference to a method as a member of `declaring`. -/
def refIn (d : MethodDef) (declaring : TypeRef) : MethodRef where
  declaring := declaring
  name := d.name
  returns := d.returns
  params := d.params
  hasThis := !d.isStatic

end MethodDef

namespace Module

variable {m m' : Module} {d : Disposal} {owner : String} {key : MethodKey} {t : TypeDef}

/-! ## The override -/

/-- An override is one more method of the type, and of the others it changes flags at most. -/
theorem core_synthesized {d : Disposal} {typeName : String} {ancestor : MethodKey} {t : TypeDef}
    (fits : (TeardownPlan.synthesize ancestor).Fits m d typeName)
    (known : m.findType? typeName = some t) :
    (m.ensured typeName (.synthesize ancestor)).2 = m.nextMethodKey typeName ∧
      ∃ inherited declaring, d.isTeardown inherited = true ∧ ∀ key,
        ((m.ensured typeName (.synthesize ancestor)).1.findMethod? key).map MethodDef.core =
          if key = m.nextMethodKey typeName then
            some (overridingTeardown inherited (inherited.refIn declaring)).core
          else (m.findMethod? key).map MethodDef.core := by
  have named : t.definitionName = typeName := (mem_of_findType? known).2
  cases fits with
  | @synthesize _ owner inherited known' found teardown =>
    have result : m.ensured typeName (.synthesize ancestor) =
        (m.synthesizeTeardown t owner ancestor inherited, m.nextMethodKey typeName) := by
      rw [ensured, known]
      simp only [ensureTeardown, Option.getD_some, known', found, named]
    rw [result]
    refine ⟨rfl, inherited, m.ancestorRef t owner, teardown, fun key => ?_⟩
    dsimp only
    rw [findMethod?_synthesizeTeardown (by rw [named]; exact known), named, Option.map_map]
    have opened : (MethodDef.core ∘ fun d => if owner.isLocal = true ∧ key = ancestor then
        { d with flags := d.flags.opened } else d) = MethodDef.core := by
      funext d
      rw [Function.comp_apply]
      split
      · exact MethodDef.core_opened d
      · rfl
    rw [opened]
    split <;> rfl

theorem isTeardown_overridingTeardown {inherited : MethodDef} (call : MethodRef)
    (teardown : d.isTeardown inherited = true) :
    d.isTeardown (overridingTeardown inherited call) = true := by
  simp only [Disposal.isTeardown, Bool.and_eq_true, Bool.not_eq_true'] at teardown ⊢
  obtain ⟨⟨⟨name, _⟩, constructor⟩, static⟩ := teardown
  refine ⟨⟨⟨name, rfl⟩, ?_⟩, ?_⟩
  · show (inherited.flags.isConstructor || false) = false
    rw [Bool.or_false]
    exact constructor
  · show (inherited.flags.isStatic || false) = false
    rw [Bool.or_false]
    exact static

/-- An override is an instance method that can be overridden in turn. -/
theorem core_overridingTeardown {inherited : MethodDef} (call : MethodRef)
    (teardown : d.isTeardown inherited = true) : (overridingTeardown inherited call).core =
      { name := inherited.name, returns := inherited.returns, flags := {},
        visibility := inherited.visibility,
        body := some (Body.ofInstrs [.ldthis, .call call, .ret]) } := by
  simp only [Disposal.isTeardown, MethodDef.isConstructor, MethodDef.isStatic, Bool.and_eq_true,
    Bool.not_eq_true'] at teardown
  simp [overridingTeardown, MethodDef.core, teardown]

/-- What a plan leaves of the methods: there is one more at most, and it is an override. -/
theorem core_ensured {d : Disposal} {typeName : String} {plan : TeardownPlan} {t : TypeDef}
    (fits : plan.Fits m d typeName) (known : m.findType? typeName = some t) :
    (m.ensured typeName plan).2.owner = typeName ∧
      ∀ key, ((m.ensured typeName plan).1.findMethod? key).map MethodDef.core =
          (m.findMethod? key).map MethodDef.core ∨
        key = (m.ensured typeName plan).2 ∧ m.findMethod? key = none ∧ ∃ inherited call,
          ((m.ensured typeName plan).1.findMethod? key).map MethodDef.core =
            some (overridingTeardown inherited call).core := by
  cases plan with
  | existing key =>
    cases fits with
    | existing owner _ _ _ => exact ⟨owner, fun key => .inl rfl⟩
  | synthesize ancestor =>
    obtain ⟨next, inherited, declaring, _, each⟩ := core_synthesized fits known
    refine ⟨by rw [next]; rfl, fun key => ?_⟩
    rw [each key, next]
    split
    · next here => exact .inr ⟨here, here ▸ findMethod?_nextMethodKey m typeName, inherited, _, rfl⟩
    · exact .inl rfl

/-! ## The teardown of a type -/

/-- The first teardown among the methods of a type. -/
structure IsTeardown (m : Module) (d : Disposal) (owner : String) (key : MethodKey) : Prop where
  owned : key.owner = owner
  here : (m.findMethod? key).map d.isTeardown = some true
  first : ∀ i < key.index, (m.findMethod? ⟨owner, i⟩).map d.isTeardown ≠ some true

theorem IsTeardown.of_same (teardown : m.IsTeardown d owner key)
    (same : ∀ key, key.owner = owner →
      (m'.findMethod? key).map d.isTeardown = (m.findMethod? key).map d.isTeardown) :
    m'.IsTeardown d owner key where
  owned := teardown.owned
  here := (same key teardown.owned).trans teardown.here
  first := fun i before => by
    rw [same ⟨owner, i⟩ rfl]
    exact teardown.first i before

theorem isTeardown_core (d : Disposal) : (d.isTeardown ∘ MethodDef.core) = d.isTeardown := rfl

/-- Flags of methods have no part in what is a teardown. -/
theorem isTeardown_of_core {x y : Option MethodDef}
    (same : x.map MethodDef.core = y.map MethodDef.core) :
    x.map d.isTeardown = y.map d.isTeardown := by
  rw [← isTeardown_core, ← Option.map_map, same, Option.map_map]

theorem findMethod?_of_known (known : m.findType? owner = some t) (i : Nat) :
    m.findMethod? ⟨owner, i⟩ = t.methods[i]? := by
  rw [findMethod?, known, Option.bind_some]

theorem IsTeardown.unique {key' : MethodKey} (teardown : m.IsTeardown d owner key)
    (teardown' : m.IsTeardown d owner key') : key = key' := by
  obtain ⟨owned, here, first⟩ := teardown
  obtain ⟨owned', here', first'⟩ := teardown'
  obtain ⟨_, i⟩ := key
  obtain ⟨_, j⟩ := key'
  cases owned
  cases owned'
  obtain before | same | after := Nat.lt_trichotomy i j
  · exact absurd here (first' i before)
  · rw [same]
  · exact absurd here' (first j after)

theorem isTeardown_of_own {own : MethodDef} (known : m.findType? owner = some t)
    (declared : t.ownTeardown? d = some (key, own)) : m.IsTeardown d owner key := by
  have named : t.definitionName = owner := (mem_of_findType? known).2
  obtain ⟨listed, known', _, teardown⟩ :=
    findMethod?_of_ownTeardown? (mem_of_findType? known).1 declared
  obtain ⟨_, i, inside, there, first⟩ := List.find?_eq_some_iff_getElem.1 declared
  have line : t.keyedMethods[i]? = some (key, own) := List.getElem?_eq_some_iff.2 ⟨inside, there⟩
  have keyed (j : Nat) : t.keyedMethods[j]? = t.methods[j]?.map fun d => (⟨owner, j⟩, d) := by
    rw [TypeDef.keyedMethods, List.getElem?_map, List.getElem?_zipIdx, Option.map_map, named]
    simp [Function.comp_def]
  rw [keyed] at line
  obtain ⟨own', there', same⟩ := Option.map_eq_some_iff.1 line
  cases same
  refine ⟨rfl, ?_, fun j before => ?_⟩
  · rw [findMethod?_of_known known, there', Option.map_some, teardown]
  · rw [findMethod?_of_known known]
    intro found
    obtain ⟨d', there'', isTeardown⟩ := Option.map_eq_some_iff.1 found
    have line' := keyed j
    rw [there'', Option.map_some] at line'
    obtain ⟨inside', eq⟩ := List.getElem?_eq_some_iff.1 line'
    have earlier := first j before
    rw [eq] at earlier
    dsimp only at earlier
    rw [isTeardown] at earlier
    cases earlier

theorem not_isTeardown_of_own (known : m.findType? owner = some t)
    (none : t.ownTeardown? d = none) (i : Nat) :
    (m.findMethod? ⟨owner, i⟩).map d.isTeardown ≠ some true := by
  have named : t.definitionName = owner := (mem_of_findType? known).2
  rw [findMethod?_of_known known]
  intro found
  obtain ⟨d', there, isTeardown⟩ := Option.map_eq_some_iff.1 found
  have listed : (⟨owner, i⟩, d') ∈ t.keyedMethods :=
    TypeDef.mem_keyedMethods.2 ⟨named.symm, there⟩
  exact List.find?_eq_none.1 none _ listed isTeardown

/-- The first teardown is the one that the type declares. -/
theorem IsTeardown.own (teardown : m.IsTeardown d owner key)
    (known : m.findType? owner = some t) : ∃ own, t.ownTeardown? d = some (key, own) := by
  cases declared : t.ownTeardown? d with
  | none =>
    obtain ⟨owned, here, _⟩ := teardown
    obtain ⟨_, i⟩ := key
    cases owned
    exact absurd here (not_isTeardown_of_own known declared i)
  | some keyed =>
    obtain ⟨key', own⟩ := keyed
    rw [teardown.unique (isTeardown_of_own known declared)]
    exact ⟨own, rfl⟩

end Module

end ReleaseWeaver
