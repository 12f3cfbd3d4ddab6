import ReleaseWeaver.Proofs.Tracking.Roles
import ReleaseWeaver.Proofs.Weave.Passes
import ReleaseWeaver.Proofs.Weave.Teardowns

/-
  What the weaving of other types leaves alone. A body avoids a field when none of its
  instructions reads or writes a field of that name. The weaving of one type changes the bodies
  of that type only, puts no other tracking field into them than the type's own, and of every
  other type at most flags.
-/

namespace ReleaseWeaver

/-! ## Bodies that avoid a field -/

/-- The instruction neither reads nor writes a field of this name. -/
def Instr.Avoids (i : Instr) (field : String) : Prop :=
  ∀ f, i.accessed? = some f → f.name ≠ field

instance (i : Instr) (field : String) : Decidable (i.Avoids field) :=
  inferInstanceAs (Decidable (∀ f ∈ i.accessed?, f.name ≠ field))

theorem Instr.avoids_of_access {i : Instr} {f : FieldRef} {field : String}
    (access : i.accessed? = some f) (other : f.name ≠ field) : i.Avoids field := by
  intro f' accessed
  rw [access] at accessed
  cases accessed
  exact other

theorem avoids_behindThis {i j : Instr} {field : String} (first : i.Avoids field)
    (second : j.Avoids field) : ∀ k ∈ [Instr.ldthis, i, j], k.Avoids field :=
  forall_mem_three nofun first second

theorem avoids_prologue {f : FieldRef} {field : String} (other : f.name ≠ field)
    (constructor : MethodRef) : ∀ i ∈ prologue f constructor, i.Avoids field :=
  avoids_behindThis nofun (Instr.avoids_of_access rfl other)

theorem avoids_releaseField {f : FieldRef} {field : String} (other : f.name ≠ field)
    (release : MethodRef) : ∀ i ∈ releaseField f release, i.Avoids field :=
  avoids_behindThis (Instr.avoids_of_access rfl other) nofun

theorem avoids_registration {f : FieldRef} {field : String} (other : f.name ≠ field)
    (helper : MethodRef) : ∀ i ∈ registration f helper, i.Avoids field :=
  avoids_behindThis (Instr.avoids_of_access rfl other) nofun

namespace Body

variable {b : Body} {field : String} {run : List Instr}

def Avoids (b : Body) (field : String) : Prop := ∀ l ∈ b.lines, l.2.Avoids field

instance (b : Body) (field : String) : Decidable (b.Avoids field) :=
  inferInstanceAs (Decidable (∀ l ∈ b.lines, l.2.Avoids field))

section Plain

variable (plain : ∀ l ∈ b.lines, l.2.accessed? = none ∧ l.2.target? = none)

include plain

theorem avoids_of_plain (field : String) : b.Avoids field := by
  intro l listed f accessed
  rw [(plain l listed).1] at accessed
  cases accessed

theorem bound_of_plain : b.Bound := by
  intro l listed t target
  rw [(plain l listed).2] at target
  cases target

end Plain

theorem Avoids.insertAt (avoids : b.Avoids field) (aside : ∀ i ∈ run, i.Avoids field) (p : Nat) :
    (b.insertAt p run).Avoids field := by
  intro l listed
  obtain old | new := mem_lines_insertAt.1 listed
  · exact avoids l old
  · obtain ⟨j, i, here, rfl⟩ := mem_fresh.1 new
    exact aside i (List.mem_of_getElem? here)

theorem Avoids.retarget (avoids : b.Avoids field) (source goal : Handle) :
    (b.retarget source goal).Avoids field := by
  intro l listed
  obtain ⟨l', listed', rfl⟩ := mem_lines_retarget.1 listed
  unfold retargetLine
  split
  · intro f accessed
    rw [Instr.accessed?_withTarget] at accessed
    exact avoids l' listed' f accessed
  · exact avoids l' listed'

theorem Avoids.released {i : Instr} (avoids : b.Avoids field)
    (aside : ∀ i' ∈ i :: run, i'.Avoids field) : (b.released (i :: run)).Avoids field := by
  cases final : b.finalExit? with
  | none =>
    rw [Body.released, final]
    exact avoids
  | some exit =>
    obtain ⟨p, _, _, _, result⟩ := released_eq i run final
    rw [result]
    exact (avoids.insertAt aside p).retarget exit _

theorem Avoids.registered {c : WeaveContext} {f : FieldRef} (avoids : b.Avoids field)
    (other : f.name ≠ field) : (b.registered c f).Avoids field := by
  refine registered_induction (fun b => b.Avoids field) avoids fun b' h i p avoids' _ _ _ => ?_
  exact avoids'.insertAt (avoids_registration other _) (p + 1)

end Body

theorem accessed?_releaseProperty (getter release : MethodRef) :
    ∀ i ∈ releaseProperty getter release, i.accessed? = none ∧ i.target? = none :=
  forall_mem_three ⟨rfl, rfl⟩ ⟨rfl, rfl⟩ ⟨rfl, rfl⟩

/-! ## Methods -/

namespace MethodDef

variable {d : MethodDef} {field : String}

def Avoids (d : MethodDef) (field : String) : Prop := ∀ b, d.body = some b → b.Avoids field

theorem Avoids.of_core {d' : MethodDef} (avoids : d.Avoids field) (same : d'.core = d.core) :
    d'.Avoids field := fun b body => avoids b (body_of_core same ▸ body)

theorem Avoids.withPrologue {run : List Instr} (avoids : d.Avoids field)
    (aside : ∀ i ∈ run, i.Avoids field) : (d.withPrologue run).Avoids field := by
  unfold MethodDef.withPrologue
  split
  · intro b body
    obtain ⟨b₀, body₀, rfl⟩ := Option.map_eq_some_iff.1 body
    exact (avoids b₀ body₀).insertAt aside 0
  · exact avoids

theorem Avoids.registered {c : WeaveContext} {f : FieldRef} (avoids : d.Avoids field)
    (other : f.name ≠ field) : (d.registered c f).Avoids field := by
  intro b body
  obtain ⟨b₀, body₀, rfl⟩ := Option.map_eq_some_iff.1 body
  exact (avoids b₀ body₀).registered other

theorem Avoids.released {i : Instr} {run : List Instr} (avoids : d.Avoids field)
    (aside : ∀ i' ∈ i :: run, i'.Avoids field) : (d.released (i :: run)).Avoids field := by
  intro b body
  obtain ⟨b₀, body₀, rfl⟩ := Option.map_eq_some_iff.1 body
  exact (avoids b₀ body₀).released aside

end MethodDef

/-! ## Modules -/

namespace Module

variable {m m' : Module} {c : WeaveContext} {field owner : String} {key : MethodKey}

/-- The methods of one type are the same but for flags, and the bodies of the others still avoid
the field. -/
structure Aside (owner field : String) (m m' : Module) : Prop where
  shapes : m'.shapes = m.shapes
  own : ∀ key, key.owner = owner →
    (m'.findMethod? key).map MethodDef.core = (m.findMethod? key).map MethodDef.core
  others : (∀ key d, key.owner ≠ owner → m.findMethod? key = some d → d.Avoids field) →
    ∀ key d, key.owner ≠ owner → m'.findMethod? key = some d → d.Avoids field

theorem Aside.refl (owner field : String) (m : Module) : m.Aside owner field m :=
  ⟨rfl, fun _ _ => rfl, id⟩

theorem Aside.trans {m₁ m₂ m₃ : Module} (first : Aside owner field m₁ m₂)
    (second : Aside owner field m₂ m₃) : Aside owner field m₁ m₃ where
  shapes := second.shapes.trans first.shapes
  own := fun key same => (second.own key same).trans (first.own key same)
  others := fun avoids => second.others (first.others avoids)

/-- A change of methods one by one. -/
theorem aside_of_map (shapes : m'.shapes = m.shapes) {g : MethodKey → MethodDef → MethodDef}
    (each : ∀ key, m'.findMethod? key = (m.findMethod? key).map (g key))
    (own : ∀ key d, key.owner = owner → (g key d).core = d.core)
    (others : ∀ key d, key.owner ≠ owner → d.Avoids field → (g key d).Avoids field) :
    m.Aside owner field m' where
  shapes := shapes
  own := by
    intro key same
    rw [each, Option.map_map]
    congr 1
    funext d
    exact own key d same
  others := by
    intro avoids key d other found
    rw [each] at found
    obtain ⟨d₀, found₀, rfl⟩ := Option.map_eq_some_iff.1 found
    exact others key d₀ other (avoids key d₀ other found₀)

/-! ## The override -/

/-- The override neither touches a field nor branches. -/
theorem lines_overridingTeardown {inherited : MethodDef} {call : MethodRef} {b : Body}
    (body : (overridingTeardown inherited call).body = some b) :
    ∀ l ∈ b.lines, l.2.accessed? = none ∧ l.2.target? = none := by
  cases body
  have lines : (Body.ofInstrs [.ldthis, .call call, .ret]).lines =
      [(.nth 1, .ldthis), (.nth 2, .call call), (.nth 3, .ret)] := rfl
  rw [lines]
  exact forall_mem_three ⟨rfl, rfl⟩ ⟨rfl, rfl⟩ ⟨rfl, rfl⟩

theorem avoids_overridingTeardown (inherited : MethodDef) (call : MethodRef) (field : String) :
    (overridingTeardown inherited call).Avoids field :=
  fun _ body => Body.avoids_of_plain (lines_overridingTeardown body) field

/-! ## Other targets -/

section Others

variable {target : Target} {t : TypeDef} {plan : TeardownPlan}

theorem aside_ensured {d : Disposal} {typeName : String} (fits : plan.Fits m d typeName)
    (known : m.findType? typeName = some t) (other : typeName ≠ owner) :
    m.Aside owner field (m.ensured typeName plan).1 := by
  obtain ⟨owned, each⟩ := core_ensured fits known
  refine ⟨shapes_ensureTeardown m _ plan, fun key same => ?_, fun avoids key d apart found => ?_⟩
  · obtain kept | ⟨new, _⟩ := each key
    · exact kept
    · exact absurd (owned.symm.trans (new ▸ same)) other
  · obtain kept | ⟨_, _, inherited, call, added⟩ := each key
    · rw [found] at kept
      obtain ⟨d₀, found₀, same⟩ := Option.map_eq_some_iff.1 kept.symm
      exact (avoids key d₀ apart found₀).of_core same.symm
    · rw [found] at added
      exact (avoids_overridingTeardown inherited call field).of_core (Option.some.inj added)

theorem aside_releaseIn {i : Instr} {run : List Instr} (other : key.owner ≠ owner)
    (aside : ∀ i' ∈ i :: run, i'.Avoids field) (m : Module) :
    m.Aside owner field (m.releaseIn key (i :: run)) := by
  refine aside_of_map (shapes_modifyMethod m key _) (findMethod?_releaseIn m key (i :: run))
    (fun key' d same => ?_) fun key' d _ avoids => ?_
  · have outside : key' ≠ key := fun eq => other (eq ▸ same)
    rw [if_neg outside]
  · split
    · exact avoids.released aside
    · exact avoids

theorem aside_instrumented (known : m.findType? target.typeName = some t)
    (other : target.typeName ≠ owner) (apart : (c.trackingField t).name ≠ field) :
    m.Aside owner field (m.instrumented c target t) := by
  have named : t.definitionName = target.typeName := (mem_of_findType? known).2
  have fieldAdded : m.Aside owner field (m.withField t.definitionName (c.trackingField t)) :=
    aside_of_map (g := fun _ d => d) (shapes_withField m _ _)
      (fun key => by rw [findMethod?_withField, Option.map_id']) (fun _ _ _ => rfl)
      fun _ _ _ avoids => avoids
  have constructed (m : Module) : m.Aside owner field (m.instrumentConstructors target.typeName
      (t.fieldRef (c.trackingField t)) c.collaborators.containerConstructor).1 := by
    refine aside_of_map (shapes_instrumentConstructors m _ _ _)
      (findMethod?_instrumentConstructors m _ _ _) (fun key d same => ?_) fun key d _ avoids => ?_
    · rw [if_neg fun eq => other (eq.symm.trans same)]
    · split
      · exact avoids.withPrologue (avoids_prologue apart _)
      · exact avoids
  have registered (keys : List MethodKey) (owned : ∀ key ∈ keys, key.owner = target.typeName)
      (m : Module) : m.Aside owner field (m.registerAll c (t.fieldRef (c.trackingField t)) keys) := by
    induction keys generalizing m with
    | nil => exact .refl owner field m
    | cons first rest ih =>
      have one : m.Aside owner field (m.registerIn c (t.fieldRef (c.trackingField t)) first) := by
        refine aside_of_map (shapes_modifyMethod m first _)
          (findMethod?_modifyMethod m first (MethodDef.registered c _)) (fun key d same => ?_)
          fun key d _ avoids => ?_
        · have outside : key ≠ first := fun eq =>
            other ((owned first List.mem_cons_self).symm.trans (eq ▸ same))
          rw [if_neg outside]
        · split
          · exact avoids.registered apart
          · exact avoids
      exact one.trans (ih (fun key listed => owned key (List.mem_cons_of_mem first listed)) _)
  refine (fieldAdded.trans (constructed _)).trans (registered _ (fun key listed => ?_) _)
  obtain ⟨⟨key', d⟩, chosen, rfl⟩ := List.mem_map.1 listed
  rw [← named]
  exact (TypeDef.mem_keyedMethods.1 (List.mem_filter.1 chosen).1).1

/-- The handle pass on another target. -/
theorem aside_trackTarget (known : m.findType? target.typeName = some t)
    (planned : Weave.requiredPlan c t m = .ok plan) (other : target.typeName ≠ owner)
    (apart : (c.trackingField t).name ≠ field) :
    m.Aside owner field (m.trackTarget c target t plan) := by
  obtain ⟨t', known', _⟩ := findType?_of_shapes (shapes_instrumented c target t m) known
  have fits : plan.Fits (m.instrumented c target t) c.disposal target.typeName :=
    Weave.fits_instrumented known planned
  have owned := (core_ensured fits known').1
  refine ((aside_instrumented known other apart).trans (aside_ensured fits known' other)).trans ?_
  exact aside_releaseIn (fun same => other (owned.symm.trans same)) (avoids_releaseField apart _) _

/-- The command pass on another target. -/
theorem aside_releaseTarget (getters : List MethodRef)
    (known : m.findType? target.typeName = some t)
    (planned : Weave.requiredPlan c t m = .ok plan) (other : target.typeName ≠ owner) :
    m.Aside owner field (m.releaseTarget c getters target plan) := by
  have fits : plan.Fits m c.disposal target.typeName := Weave.fits_of_requiredPlan known planned
  have owned := (core_ensured fits known).1
  have released (m : Module) (key : MethodKey) (apart : key.owner ≠ owner) :
      m.Aside owner field (getters.foldl (fun m getter =>
        m.releaseIn key (releaseProperty getter c.collaborators.contractRelease)) m) := by
    induction getters generalizing m with
    | nil => exact .refl owner field m
    | cons getter rest ih =>
      refine (aside_releaseIn apart (fun i listed f accessed => ?_) m).trans (ih _)
      rw [(accessed?_releaseProperty getter c.collaborators.contractRelease i listed).1] at accessed
      cases accessed
  exact (aside_ensured fits known other).trans
    (released _ _ fun same => other (owned.symm.trans same))

end Others

end Module

end ReleaseWeaver
