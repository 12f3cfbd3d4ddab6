import ReleaseWeaver.Proofs.Weave.Teardowns

/-
  What the plans for teardowns read of a module, and what an override does to them. The type gets a
  teardown that can be overridden in turn, in place of one that could be overridden. So no other
  plan changes but for the teardown that it overrides: who is refused stays refused, for the same
  reason, and who needs an override still needs one.
-/

namespace ReleaseWeaver

theorem findSome?_congr {α β : Type} {f g : α → Option β} {xs : List α}
    (same : ∀ x ∈ xs, f x = g x) : xs.findSome? f = xs.findSome? g := by
  induction xs with
  | nil => rfl
  | cons x rest ih =>
    rw [List.findSome?_cons, List.findSome?_cons, same x List.mem_cons_self,
      ih fun y listed => same y (List.mem_cons_of_mem x listed)]

/-! ## Methods that are overridden -/

namespace MethodDef

variable {d : MethodDef} {disposal : Disposal}

/-- An override of the method, which calls it as a member of `declaring`. -/
def overrideVia (d : MethodDef) (declaring : TypeRef) : MethodDef :=
  Module.overridingTeardown d (d.refIn declaring)

/-- The method, opened for overriding if so asked. -/
def openedIf (opens : Bool) (d : MethodDef) : MethodDef :=
  { d with flags := if opens then d.flags.opened else d.flags }

@[simp] theorem openedIf_false (d : MethodDef) : d.openedIf false = d := rfl

theorem openedIf_openedIf (a b : Bool) (d : MethodDef) :
    (d.openedIf a).openedIf b = d.openedIf (a || b) := by
  cases a <;> cases b <;> simp [openedIf]

@[simp] theorem isTeardown_openedIf (opens : Bool) (d : MethodDef) :
    disposal.isTeardown (d.openedIf opens) = disposal.isTeardown d := by
  cases opens <;> simp [openedIf, Disposal.isTeardown, MethodDef.isConstructor, MethodDef.isStatic]

@[simp] theorem isInstanceWithBody_openedIf (opens : Bool) (d : MethodDef) :
    (d.openedIf opens).isInstanceWithBody = d.isInstanceWithBody := by
  cases opens <;> simp [openedIf, isInstanceWithBody, hasBody, MethodDef.isStatic]

@[simp] theorem takesPrologue_openedIf (opens : Bool) (d : MethodDef) :
    (d.openedIf opens).takesPrologue = d.takesPrologue := by
  cases opens <;> simp [openedIf, takesPrologue, MethodDef.isConstructor, MethodDef.isStatic]

/-- An override does not show whether its method was opened, … -/
theorem overrideVia_openedIf (opens : Bool) (d : MethodDef) :
    (d.openedIf opens).overrideVia = d.overrideVia := by
  funext declaring
  cases opens <;> simp [openedIf, overrideVia, Module.overridingTeardown, refIn, MethodDef.isStatic]

/-- … it is open itself, … -/
theorem openedIf_overrideVia (opens : Bool) (declaring : TypeRef) :
    (d.overrideVia declaring).openedIf opens = d.overrideVia declaring := by
  cases opens <;> simp [openedIf, overrideVia, Module.overridingTeardown]

/-- … and is overridden as a method without parameters that it overrides. -/
theorem overrideVia_overrideVia (plain : d.params = []) (declaring : TypeRef) :
    (d.overrideVia declaring).overrideVia = d.overrideVia := by
  funext declaring'
  simp [overrideVia, Module.overridingTeardown, refIn, MethodDef.isStatic, plain]

theorem params_of_isTeardown (teardown : disposal.isTeardown d = true) : d.params = [] := by
  simp only [Disposal.isTeardown, Bool.and_eq_true, List.isEmpty_iff] at teardown
  exact teardown.1.1.2

/-- What counts of a method for the plans of teardowns. -/
def stub (d : MethodDef) : MethodDef × Option Handle := d.core.outline

@[simp] theorem stub_openedIf (opens : Bool) (d : MethodDef) : (d.openedIf opens).stub = d.stub := by
  cases opens with
  | false => rfl
  | true => exact congrArg outline (core_opened d)

theorem isTeardown_of_stub {x y : Option MethodDef} (same : x.map stub = y.map stub) :
    x.map disposal.isTeardown = y.map disposal.isTeardown := by
  have through : disposal.isTeardown = (fun stub => disposal.isTeardown stub.1) ∘ stub := rfl
  rw [through, ← Option.map_map, ← Option.map_map, same]

end MethodDef

namespace Module

variable {m m' : Module} {d : Disposal} {t t' u u' : TypeDef} {name other : String}
  {key ancestor : MethodKey} {own : MethodDef}

/-! ## What a plan reads -/

/-- The teardown that the type of a name declares. -/
def declared? (m : Module) (d : Disposal) (name : String) : Option (MethodKey × MethodDef) :=
  (m.findType? name).bind fun t => t.ownTeardown? d

theorem declared?_of_known (known : m.findType? name = some t) :
    m.declared? d name = t.ownTeardown? d := by
  rw [declared?, known, Option.bind_some]

theorem declared?_eq_some :
    m.declared? d name = some (key, own) ↔ m.IsTeardown d name key ∧ m.findMethod? key = some own := by
  constructor
  · intro declared
    obtain ⟨t, known, declared⟩ := Option.bind_eq_some_iff.1 declared
    exact ⟨isTeardown_of_own known declared,
      (findMethod?_of_ownTeardown? (mem_of_findType? known).1 declared).2.2.1⟩
  · rintro ⟨teardown, found⟩
    obtain ⟨t, known, _⟩ := findMethod?_eq_some.1 found
    rw [teardown.owned] at known
    obtain ⟨own', declared⟩ := teardown.own known
    obtain ⟨_, _, found', _⟩ := findMethod?_of_ownTeardown? (mem_of_findType? known).1 declared
    rw [declared?_of_known known, declared, Option.some.inj (found.symm.trans found')]

theorem declared?_eq_none : m.declared? d name = none ↔
    ∀ i, (m.findMethod? ⟨name, i⟩).map d.isTeardown ≠ some true := by
  cases known : m.findType? name with
  | none => simp [declared?, findMethod?, known]
  | some t =>
    rw [declared?_of_known known]
    refine ⟨not_isTeardown_of_own known, fun without => ?_⟩
    by_contra declared
    obtain ⟨⟨key, own⟩, declared⟩ := Option.ne_none_iff_exists'.1 declared
    have teardown := isTeardown_of_own known declared
    have named : (⟨name, key.index⟩ : MethodKey) = key := by rw [← teardown.owned]
    exact without key.index (named ▸ teardown.here)

/-- Changes of the methods one by one that keep what is a teardown. -/
theorem declared?_of_map {g : MethodKey → MethodDef → MethodDef}
    (each : ∀ key, key.owner = name → m'.findMethod? key = (m.findMethod? key).map (g key))
    (kept : ∀ key x, d.isTeardown (g key x) = d.isTeardown x) :
    m'.declared? d name = (m.declared? d name).map fun own => (own.1, g own.1 own.2) := by
  have same (key : MethodKey) (owned : key.owner = name) :
      (m'.findMethod? key).map d.isTeardown = (m.findMethod? key).map d.isTeardown := by
    rw [each key owned, Option.map_map]
    congr 1
    funext x
    exact kept key x
  cases declared : m.declared? d name with
  | none =>
    rw [Option.map_none, declared?_eq_none]
    intro i
    rw [same ⟨name, i⟩ rfl]
    exact declared?_eq_none.1 declared i
  | some keyed =>
    obtain ⟨teardown, found⟩ := declared?_eq_some.1 declared
    refine declared?_eq_some.2 ⟨teardown.of_same same, ?_⟩
    rw [each _ teardown.owned, found, Option.map_some]

/-- The teardown that the type of a name declares, as far as plans read it. -/
def teardownStub? (m : Module) (d : Disposal) (name : String) :
    Option (MethodKey × MethodDef × Option Handle) :=
  (m.findType? name).bind fun t => (t.ownTeardown? d).map (Prod.map id MethodDef.stub)

theorem teardownStub?_eq (m : Module) (d : Disposal) (name : String) :
    m.teardownStub? d name = (m.declared? d name).map (Prod.map id MethodDef.stub) := by
  rw [teardownStub?, declared?, Option.map_bind]
  rfl

theorem teardownStub?_of_known (known : m.findType? name = some t) :
    m.teardownStub? d name = (t.ownTeardown? d).map (Prod.map id MethodDef.stub) := by
  rw [teardownStub?, known, Option.bind_some]

theorem teardownStub?_congr (same : ∀ key, key.owner = name →
      (m'.findMethod? key).map MethodDef.stub = (m.findMethod? key).map MethodDef.stub) :
    m'.teardownStub? d name = m.teardownStub? d name := by
  have teardowns (key : MethodKey) (owned : key.owner = name) :
      (m'.findMethod? key).map d.isTeardown = (m.findMethod? key).map d.isTeardown :=
    MethodDef.isTeardown_of_stub (same key owned)
  rw [teardownStub?_eq, teardownStub?_eq]
  cases declared : m.declared? d name with
  | none =>
    rw [Option.map_none, Option.map_eq_none_iff, declared?_eq_none]
    intro i
    rw [teardowns ⟨name, i⟩ rfl]
    exact declared?_eq_none.1 declared i
  | some keyed =>
    obtain ⟨key, own⟩ := keyed
    obtain ⟨teardown, found⟩ := declared?_eq_some.1 declared
    have stubs := same key teardown.owned
    rw [found] at stubs
    obtain ⟨own', found', stub⟩ := Option.map_eq_some_iff.1 stubs
    rw [declared?_eq_some.2 ⟨teardown.of_same teardowns, found'⟩, Option.map_some, Option.map_some]
    exact congrArg (fun stub => some (key, stub)) stub

/-- The first teardown strictly above a type, as far as plans read it. -/
def inheritedStub? (m : Module) (d : Disposal) (t : TypeDef) :
    Option (MethodKey × MethodDef × Option Handle) :=
  ((m.ancestors t).drop 1).findSome? fun a => m.teardownStub? d a.definitionName

theorem inheritedTeardown?_eq (listed : t ∈ m.types) : m.inheritedTeardown? d t =
    ((m.ancestors t).drop 1).findSome? fun a => m.declared? d a.definitionName :=
  findSome?_congr fun _ above => (declared?_of_known
    (findType?_of_mem (mem_types_of_ancestors listed (List.mem_of_mem_drop above)))).symm

theorem inheritedStub?_eq (listed : t ∈ m.types) :
    m.inheritedStub? d t = (m.inheritedTeardown? d t).map (Prod.map id MethodDef.stub) := by
  rw [inheritedStub?, inheritedTeardown?_eq listed, List.map_findSome?]
  exact findSome?_congr fun a _ => teardownStub?_eq m d a.definitionName

theorem planTeardown_eq (listed : t ∈ m.types) : m.planTeardown d t =
    match m.teardownStub? d t.definitionName with
    | some (key, own, exit) =>
      if exit.isSome then .ok (.existing key)
      else .error (.missingFinalExit (t.definitionName ++ "::" ++ own.name))
    | none =>
      if !t.generics.isEmpty then
        .error (.unsupportedGenericSynthesis t.definitionName d.release)
      else match m.inheritedStub? d t with
        | none => .error (.notDisposable t.definitionName)
        | some (key, inherited, _) =>
          if inherited.flags.isFinal then
            .error (.finalTeardown (key.owner ++ "::" ++ inherited.name))
          else .ok (.synthesize key) := by
  rw [teardownStub?_of_known (findType?_of_mem listed), inheritedStub?_eq listed, planTeardown]
  cases declared : t.ownTeardown? d with
  | some keyed => rfl
  | none =>
    cases above : m.inheritedTeardown? d t with
    | none => rfl
    | some keyed =>
      obtain ⟨key, inherited⟩ := keyed
      obtain ⟨a, link, declared'⟩ := List.exists_of_findSome?_eq_some above
      have listed' : a ∈ m.types := mem_types_of_ancestors listed (List.mem_of_mem_drop link)
      obtain ⟨_, _, found, _⟩ := findMethod?_of_ownTeardown? listed' declared'
      dsimp only [Option.map_some, Option.map_none, Prod.map]
      rw [qualifiedName, found]
      rfl

/-- A plan reads the shapes of the types and the stubs of the teardowns. -/
theorem planTeardown_congr (shapes : m'.shapes = m.shapes)
    (stubs : ∀ name, m'.teardownStub? d name = m.teardownStub? d name)
    (known : m.findType? name = some t) (known' : m'.findType? name = some t') :
    m'.planTeardown d t' = m.planTeardown d t := by
  obtain ⟨listed, named⟩ := mem_of_findType? known
  obtain ⟨listed', named'⟩ := mem_of_findType? known'
  have same := shape_of_known shapes known known'
  have inherited : m'.inheritedStub? d t' = m.inheritedStub? d t := by
    have through (m : Module) (t : TypeDef) : m.inheritedStub? d t =
        (((m.ancestors t).map TypeDef.shape).drop 1).findSome? fun a =>
          m.teardownStub? d a.definitionName := by
      rw [← List.map_drop, List.findSome?_map]
      rfl
    rw [through, through, ancestors_of_shapes shapes same]
    simp only [stubs]
  have generics : t'.generics = t.generics := by
    show t'.shape.generics = t.shape.generics
    rw [same]
  rw [planTeardown_eq listed, planTeardown_eq listed', named, named', stubs, inherited, generics]

/-- What a type without a teardown inherits, as far as plans read it. -/
theorem inheritedStub?_eq_some (known : m.findType? name = some t)
    (none : m.teardownStub? d name = none) {x : MethodKey × MethodDef × Option Handle} :
    m.inheritedStub? d t = some x ↔ m.FirstUp (m.teardownStub? d) name x :=
  findSome?_drop_ancestors known none

/-- The plan for a type without a teardown. -/
theorem planTeardown_of_none (known : m.findType? name = some t)
    (none : m.teardownStub? d name = none) : m.planTeardown d t =
      if !t.generics.isEmpty then
        .error (.unsupportedGenericSynthesis name d.release)
      else match m.inheritedStub? d t with
        | .none => .error (.notDisposable name)
        | some (key, inherited, _) =>
          if inherited.flags.isFinal then
            .error (.finalTeardown (key.owner ++ "::" ++ inherited.name))
          else .ok (.synthesize key) := by
  obtain ⟨listed, named⟩ := mem_of_findType? known
  rw [planTeardown_eq listed, named, none]

/-- A plan asks for an override of the first teardown up the chain, which is not final. -/
theorem planTeardown_eq_synthesize (known : m.findType? name = some t) :
    m.planTeardown d t = .ok (.synthesize key) ↔
      m.declared? d name = none ∧ t.generics.isEmpty = true ∧ ∃ inherited,
        m.FirstUp (m.declared? d) name (key, inherited) ∧ inherited.flags.isFinal = false := by
  obtain ⟨listed, named⟩ := mem_of_findType? known
  rw [declared?_of_known known, planTeardown]
  cases own : t.ownTeardown? d with
  | some keyed =>
    dsimp only
    split <;> simp
  | none =>
    have inherits (x : MethodKey × MethodDef) :
        m.inheritedTeardown? d t = some x ↔ m.FirstUp (m.declared? d) name x := by
      rw [inheritedTeardown?_eq listed]
      exact findSome?_drop_ancestors known (by rw [declared?_of_known known, own])
    dsimp only
    cases generic : t.generics.isEmpty with
    | false => simp
    | true =>
      simp only [← inherits, Bool.not_true, Bool.false_eq_true, if_false, true_and]
      cases m.inheritedTeardown? d t with
      | none => simp
      | some x =>
        obtain ⟨key', inherited⟩ := x
        dsimp only
        constructor
        · intro planned
          split at planned
          · cases planned
          · next final =>
            cases planned
            exact ⟨inherited, rfl, by simpa using final⟩
        · rintro ⟨_, same, final⟩
          cases same
          rw [final]
          rfl

/-! ## Overrides that are needed -/

/-- The type of a name is disposable, and its plan asks for an override. -/
def NeedsOverride (m : Module) (d : Disposal) (name : String) : Prop :=
  ∃ t, m.findType? name = some t ∧ m.isDisposable d t = true ∧
    ∃ key, m.planTeardown d t = .ok (.synthesize key)

instance : Decidable (m.NeedsOverride d name) :=
  decidable_of_iff ((m.findType? name).any fun t => m.isDisposable d t &&
      match m.planTeardown d t with
      | .ok (.synthesize _) => true
      | _ => false) <| by
    rw [Option.any_eq_true]
    refine exists_congr fun t => and_congr Iff.rfl ?_
    rw [Bool.and_eq_true]
    refine and_congr Iff.rfl ?_
    split
    · next key planned => exact ⟨fun _ => ⟨key, planned⟩, fun _ => rfl⟩
    · next none => exact ⟨nofun, fun ⟨key, planned⟩ => absurd planned (none key)⟩

/-- An override is needed where there is no teardown and nothing against one. -/
theorem needsOverride_iff (known : m.findType? name = some t) : m.NeedsOverride d name ↔
    m.isDisposable d t = true ∧ m.declared? d name = none ∧
      ∀ e, m.planTeardown d t ≠ .error e := by
  constructor
  · rintro ⟨t', known', disposable, key, planned⟩
    rw [known] at known'
    cases known'
    refine ⟨disposable, ((planTeardown_eq_synthesize known).1 planned).1, fun e refused => ?_⟩
    rw [planned] at refused
    cases refused
  · rintro ⟨disposable, none, accepted⟩
    refine ⟨t, known, disposable, ?_⟩
    cases planned : m.planTeardown d t with
    | error e => exact absurd planned (accepted e)
    | ok plan =>
      cases plan with
      | synthesize key => exact ⟨key, rfl⟩
      | existing key =>
        rw [declared?_of_known known] at none
        rw [planTeardown, none] at planned
        dsimp only at planned
        split at planned
        · cases planned
        · split at planned
          · cases planned
          · split at planned <;> cases planned

/-! ## What an override does -/

/-- Whether a method is the module's own and among those that are overridden. -/
def opens (m : Module) (overridden : List MethodKey) (key : MethodKey) : Bool :=
  (m.findType? key.owner).any TypeDef.isLocal && overridden.contains key

theorem opens_cons (m : Module) (overridden : List MethodKey) :
    m.opens (ancestor :: overridden) key = (m.opens [ancestor] key || m.opens overridden key) := by
  simp only [opens, List.contains_cons, List.contains_nil, Bool.or_false, Bool.and_or_distrib_left]

theorem opens_of_shapes (shapes : m'.shapes = m.shapes) (overridden : List MethodKey)
    (key : MethodKey) : m'.opens overridden key = m.opens overridden key := by
  have through (m : Module) : (m.findType? key.owner).any TypeDef.isLocal =
      ((m.findType? key.owner).map TypeDef.shape).any TypeDef.isLocal := by
    rw [Option.any_map]
    rfl
  rw [opens, opens, through, through, findType?_shape shapes]

/-- The type of a name gets an override of the teardown that it inherits, and the teardown that is
overridden is opened. -/
structure Overriding (m : Module) (d : Disposal) (name : String) (ancestor : MethodKey)
    (inherited : MethodDef) (m' : Module) : Prop where
  planned : ∀ t, m.findType? name = some t → m.planTeardown d t = .ok (.synthesize ancestor)
  absent : m.declared? d name = none
  first : m.FirstUp (m.declared? d) name (ancestor, inherited)
  isOpen : inherited.flags.isFinal = false
  shapes : m'.shapes = m.shapes
  methods : ∀ key, m'.findMethod? key =
    if key = m.nextMethodKey name then
      some (inherited.overrideVia (m.refAbove name ancestor.owner))
    else (m.findMethod? key).map (MethodDef.openedIf (m.opens [ancestor] key))

theorem overriding_ensured (known : m.findType? name = some t)
    (planned : m.planTeardown d t = .ok (.synthesize ancestor)) :
    ∃ inherited, m.Overriding d name ancestor inherited
      (m.ensured name (.synthesize ancestor)).1 := by
  obtain ⟨listed, named⟩ := mem_of_findType? known
  obtain ⟨absent, _, inherited, first, isOpen⟩ := (planTeardown_eq_synthesize known).1 planned
  obtain ⟨_, a, _, declared, _⟩ := id first
  obtain ⟨_, found⟩ := declared?_eq_some.1 declared
  obtain ⟨owner, knownA, _⟩ := findMethod?_eq_some.1 found
  refine ⟨inherited, fun t' known' => ?_, absent, first, isOpen, shapes_ensureTeardown m _ _,
    fun key => ?_⟩
  · rw [known] at known'
    cases known'
    exact planned
  have result : m.ensured name (.synthesize ancestor) =
      (m.synthesizeTeardown t owner ancestor inherited, m.nextMethodKey name) := by
    rw [ensured, known]
    simp only [ensureTeardown, Option.getD_some, knownA, found, named]
  have opens : m.opens [ancestor] key = decide (owner.isLocal = true ∧ key = ancestor) := by
    by_cases same : key = ancestor
    · simp [Module.opens, same, knownA]
    · simp [Module.opens, same]
  rw [result]
  dsimp only
  rw [findMethod?_synthesizeTeardown (by rw [named]; exact known), named, opens,
    refAbove_of_known known knownA]
  by_cases here : key = m.nextMethodKey name
  · rw [if_pos here, if_pos here, Option.map_some]
    refine congrArg some ?_
    split
    · exact MethodDef.openedIf_overrideVia true (m.ancestorRef t owner)
    · rfl
  · rw [if_neg here, if_neg here]
    congr 1
    funext x
    by_cases opened : owner.isLocal = true ∧ key = ancestor
    · rw [if_pos opened, decide_eq_true opened]
      rfl
    · rw [if_neg opened, decide_eq_false opened]
      rfl

namespace Overriding

variable {inherited : MethodDef} (step : m.Overriding d name ancestor inherited m')

include step

theorem isTeardown : d.isTeardown inherited = true := by
  obtain ⟨_, a, _, declared, _⟩ := step.first
  obtain ⟨teardown, found⟩ := declared?_eq_some.1 declared
  have here := teardown.here
  rw [found, Option.map_some] at here
  exact Option.some.inj here

/-- The type declares its override, … -/
theorem declared?_given : m'.declared? d name =
    some (m.nextMethodKey name, inherited.overrideVia (m.refAbove name ancestor.owner)) := by
  have here := step.methods (m.nextMethodKey name)
  rw [if_pos rfl] at here
  refine declared?_eq_some.2 ⟨⟨rfl, ?_, fun i before => ?_⟩, here⟩
  · rw [here, Option.map_some, MethodDef.overrideVia,
      isTeardown_overridingTeardown _ step.isTeardown]
  · have ne : (⟨name, i⟩ : MethodKey) ≠ m.nextMethodKey name := by
      intro same
      rw [← same] at before
      exact Nat.lt_irrefl i before
    have teardowns : d.isTeardown ∘ MethodDef.openedIf (m.opens [ancestor] ⟨name, i⟩) =
        d.isTeardown := funext fun x => MethodDef.isTeardown_openedIf _ x
    rw [step.methods, if_neg ne, Option.map_map, teardowns]
    exact declared?_eq_none.1 step.absent i

/-- … and each other type what it declared before. -/
theorem declared?_other (ne : other ≠ name) : m'.declared? d other =
    (m.declared? d other).map fun own =>
      (own.1, own.2.openedIf (m.opens [ancestor] own.1)) := by
  refine declared?_of_map (g := fun key => MethodDef.openedIf (m.opens [ancestor] key))
    (fun key owned => ?_) fun key x => MethodDef.isTeardown_openedIf _ x
  rw [step.methods, if_neg]
  rintro rfl
  exact ne owned.symm

theorem nextMethodKey_other (ne : other ≠ name) :
    m'.nextMethodKey other = m.nextMethodKey other := by
  refine nextMethodKey_congr fun i => ?_
  rw [step.methods, if_neg fun same => ne (congrArg MethodKey.owner same), Option.isSome_map]

theorem teardownStub?_other (ne : other ≠ name) :
    m'.teardownStub? d other = m.teardownStub? d other := by
  rw [teardownStub?_eq, teardownStub?_eq, step.declared?_other ne, Option.map_map]
  congr 1
  funext own
  exact congrArg (Prod.mk own.1) (MethodDef.stub_openedIf _ own.2)

/-- What a type without a teardown inherits after the override. -/
theorem inheritedStub? (knownU : m.findType? other = some u) (knownU' : m'.findType? other = some u')
    (own : m.teardownStub? d other = none) (ne : other ≠ name) :
    m'.inheritedStub? d u' = m.inheritedStub? d u ∨
      m.inheritedStub? d u = some (ancestor, inherited.stub) ∧
        m'.inheritedStub? d u' = some (m.nextMethodKey name,
          (inherited.overrideVia (m.refAbove name ancestor.owner)).stub) := by
  have absent : m.teardownStub? d name = none := by
    rw [teardownStub?_eq, step.absent, Option.map_none]
  have given : m'.teardownStub? d name = some (m.nextMethodKey name,
      (inherited.overrideVia (m.refAbove name ancestor.owner)).stub) := by
    rw [teardownStub?_eq, step.declared?_given]
    rfl
  have first : m.FirstUp (m.teardownStub? d) name (ancestor, inherited.stub) := by
    rw [show m.teardownStub? d = _ from funext (teardownStub?_eq m d)]
    exact step.first.map (Prod.map id MethodDef.stub)
  have others (n : String) (ne : n ≠ name) := step.teardownStub?_other ne
  have inherits (x) : m.inheritedStub? d u = some x ↔ m.FirstUp (m.teardownStub? d) other x :=
    inheritedStub?_eq_some knownU own
  have inherits' (x) : m'.inheritedStub? d u' = some x ↔ m.FirstUp (m'.teardownStub? d) other x := by
    rw [inheritedStub?_eq_some knownU' ((others other ne).trans own), firstUp_of_shapes step.shapes]
  cases above : m.inheritedStub? d u with
  | none =>
    refine .inl ?_
    by_contra found
    obtain ⟨x, found⟩ := Option.ne_none_iff_exists'.1 found
    obtain before | ⟨_, before⟩ := FirstUp.before_given absent given others first
      ((inherits' x).1 found)
    · rw [(inherits _).2 before] at above
      cases above
    · rw [(inherits _).2 before] at above
      cases above
  | some x =>
    obtain after | ⟨rfl, after⟩ := FirstUp.after_given given others first ((inherits x).1 above)
    · exact .inl ((inherits' x).2 after)
    · exact .inr ⟨rfl, (inherits' _).2 after⟩

/-- Who is refused is refused as before. -/
theorem planTeardown_error (knownU : m.findType? other = some u)
    (knownU' : m'.findType? other = some u') (e : TargetError) :
    m'.planTeardown d u' = .error e ↔ m.planTeardown d u = .error e := by
  obtain ⟨listed, named⟩ := mem_of_findType? knownU
  obtain ⟨listed', named'⟩ := mem_of_findType? knownU'
  by_cases same : other = name
  · subst same
    rw [step.planned u knownU, planTeardown_eq listed', named', teardownStub?_eq,
      step.declared?_given]
    exact ⟨nofun, nofun⟩
  cases own : m.teardownStub? d other with
  | some keyed =>
    rw [planTeardown_eq listed, planTeardown_eq listed', named, named',
      step.teardownStub?_other same, own]
  | none =>
    have generics : u'.generics = u.generics := by
      show u'.shape.generics = u.shape.generics
      rw [shape_of_known step.shapes knownU knownU']
    rw [planTeardown_of_none knownU own,
      planTeardown_of_none knownU' ((step.teardownStub?_other same).trans own), generics]
    split
    · exact Iff.rfl
    obtain above | ⟨before, after⟩ := step.inheritedStub? knownU knownU' own same
    · rw [above]
    · -- What was inherited is overridden now, and the one is as open as the other.
      have isOpen : inherited.stub.1.flags.isFinal = false := step.isOpen
      have isOpen' : (inherited.overrideVia
        (m.refAbove name ancestor.owner)).stub.1.flags.isFinal = false := rfl
      rw [before, after]
      simp only [isOpen, isOpen', Bool.false_eq_true, if_false, reduceCtorEq]

/-- The type needs no further override, and each other type needs one if it did before. -/
theorem needsOverride : m'.NeedsOverride d other ↔ m.NeedsOverride d other ∧ other ≠ name := by
  have half (u u' : TypeDef) (knownU : m.findType? other = some u)
      (knownU' : m'.findType? other = some u') :
      m'.NeedsOverride d other ↔ m.NeedsOverride d other ∧ other ≠ name := by
    rw [needsOverride_iff knownU, needsOverride_iff knownU',
      isDisposable_of_shapes step.shapes (shape_of_known step.shapes knownU knownU')]
    simp only [ne_eq, step.planTeardown_error knownU knownU']
    by_cases here : other = name
    · rw [here, step.declared?_given]
      simp
    · rw [step.declared?_other here, Option.map_eq_none_iff]
      simp [here]
  constructor
  · intro needs
    have ⟨u', knownU', _⟩ := needs
    obtain ⟨u, knownU, _⟩ := findType?_of_shapes step.shapes.symm knownU'
    exact (half u u' knownU knownU').1 needs
  · intro needs
    have ⟨u, knownU, _⟩ := needs.1
    obtain ⟨u', knownU', _⟩ := findType?_of_shapes step.shapes knownU
    exact (half u u' knownU knownU').2 needs

end Overriding

end Module

end ReleaseWeaver
