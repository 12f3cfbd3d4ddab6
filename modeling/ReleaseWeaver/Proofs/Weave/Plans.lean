import ReleaseWeaver.Proofs.Metadata.Chains
import ReleaseWeaver.Proofs.Weave.Rewriting

/-
  Plans for teardowns. A plan fits a module when the teardown that it keeps is there with its
  final exit, or the teardown that it overrides is there. A plan that was made for a module fits
  it, still fits after the target is instrumented, and leads to a teardown with a final exit, so
  the release that follows finds its place.
-/

namespace ReleaseWeaver

namespace Module

/-- A type of the module that declares a teardown, found by its key. -/
theorem findMethod?_of_ownTeardown? {m : Module} {d : Disposal} {t : TypeDef} {key : MethodKey}
    {own : MethodDef} (listed : t ∈ m.types) (declared : t.ownTeardown? d = some (key, own)) :
    key.owner = t.definitionName ∧ m.findType? key.owner = some t ∧
      m.findMethod? key = some own ∧ d.isTeardown own = true := by
  obtain ⟨owner, there⟩ := TypeDef.mem_keyedMethods.1 (List.mem_of_find?_eq_some declared)
  have known : m.findType? key.owner = some t := by
    rw [owner]
    exact findType?_of_mem listed
  have teardown := List.find?_some
    (p := fun (keyed : MethodKey × MethodDef) => d.isTeardown keyed.2) declared
  exact ⟨owner, known, findMethod?_eq_some.2 ⟨t, known, there⟩, teardown⟩

end Module

/-- What a plan counts on in a module. -/
inductive TeardownPlan.Fits (m : Module) (d : Disposal) (typeName : String) :
    TeardownPlan → Prop where
  | existing {key own exit} : key.owner = typeName → m.findMethod? key = some own →
      d.isTeardown own = true → own.finalExit? = some exit → Fits m d typeName (.existing key)
  | synthesize {key owner inherited} : m.findType? key.owner = some owner →
      m.findMethod? key = some inherited → d.isTeardown inherited = true →
      Fits m d typeName (.synthesize key)

namespace Module

variable {m : Module} {d : Disposal} {t : TypeDef} {plan : TeardownPlan}

theorem fits_of_planTeardown (listed : t ∈ m.types) (planned : m.planTeardown d t = .ok plan) :
    plan.Fits m d t.definitionName := by
  unfold planTeardown at planned
  split at planned
  · next key own declared =>
    obtain ⟨owner, _, found, teardown⟩ := findMethod?_of_ownTeardown? listed declared
    split at planned
    · next final =>
      cases planned
      obtain ⟨exit, final⟩ := Option.isSome_iff_exists.1 final
      exact .existing owner found teardown final
    · cases planned
  · split at planned
    · cases planned
    · split at planned
      · cases planned
      · next key inherited above =>
        split at planned
        · cases planned
        · cases planned
          obtain ⟨a, link, declared⟩ := List.exists_of_findSome?_eq_some above
          have listed' : a ∈ m.types :=
            mem_types_of_ancestors listed (List.mem_of_mem_drop link)
          obtain ⟨_, known, found, teardown⟩ := findMethod?_of_ownTeardown? listed' declared
          exact .synthesize known found teardown

theorem isTeardown_of_outline {own own' : MethodDef} (same : own'.outline = own.outline) :
    d.isTeardown own' = d.isTeardown own :=
  congrArg (fun outline : MethodDef × Option Handle => d.isTeardown outline.1) same

/-- Changes that leave the shapes alone, and of each method all but its body, whose final exit
stays. -/
structure Keeps (m m' : Module) : Prop where
  shapes : m'.shapes = m.shapes
  methods : ∀ key,
    (m'.findMethod? key).map MethodDef.outline = (m.findMethod? key).map MethodDef.outline

theorem Keeps.method {m m' : Module} (kept : m.Keeps m') {key : MethodKey} {own : MethodDef}
    (found : m.findMethod? key = some own) :
    ∃ own', m'.findMethod? key = some own' ∧ own'.outline = own.outline := by
  have same := kept.methods key
  rw [found] at same
  exact Option.map_eq_some_iff.1 same

theorem Keeps.refl (m : Module) : m.Keeps m := ⟨rfl, fun _ => rfl⟩

theorem Keeps.trans {m₁ m₂ m₃ : Module} (first : m₁.Keeps m₂) (second : m₂.Keeps m₃) :
    m₁.Keeps m₃ :=
  ⟨second.shapes.trans first.shapes, fun key => (second.methods key).trans (first.methods key)⟩

/-- A change of the methods one by one, each of which keeps its outline. -/
theorem keeps_of_map {m m' : Module} (shapes : m'.shapes = m.shapes)
    {g : MethodKey → MethodDef → MethodDef}
    (each : ∀ key, m'.findMethod? key = (m.findMethod? key).map (g key))
    (kept : ∀ key own, (g key own).outline = own.outline) : m.Keeps m' where
  shapes := shapes
  methods := by
    intro key
    rw [each, Option.map_map]
    congr 1
    funext own
    exact kept key own

theorem keeps_modifyMethod (m : Module) (key : MethodKey) {f : MethodDef → MethodDef}
    (kept : ∀ own, (f own).outline = own.outline) : m.Keeps (m.modifyMethod key f) := by
  refine keeps_of_map (shapes_modifyMethod m key f) (findMethod?_modifyMethod m key f)
    fun key' own => ?_
  split
  · exact kept own
  · rfl

theorem keeps_registerIn (c : WeaveContext) (field : FieldRef) (m : Module) (key : MethodKey) :
    m.Keeps (m.registerIn c field key) :=
  keeps_modifyMethod m key (MethodDef.outline_registered c field)

theorem keeps_releaseIn (m : Module) (teardown : MethodKey) (run : List Instr) :
    m.Keeps (m.releaseIn teardown run) :=
  keeps_modifyMethod m teardown (MethodDef.outline_released run)

theorem keeps_instrumentConstructors (m : Module) (typeName : String) (field : FieldRef)
    (constructor : MethodRef) :
    m.Keeps (m.instrumentConstructors typeName field constructor).1 := by
  refine keeps_of_map (shapes_instrumentConstructors m _ _ _)
    (findMethod?_instrumentConstructors m typeName field constructor) fun key own => ?_
  split
  · exact MethodDef.outline_withPrologue _ own
  · rfl

theorem keeps_instrumented (c : WeaveContext) (target : Target) (t : TypeDef) (m : Module) :
    m.Keeps (m.instrumented c target t) := by
  have field : m.Keeps (m.withField t.definitionName (c.trackingField t)) :=
    keeps_of_map (g := fun _ own => own) (shapes_withField m _ _)
      (fun key => by rw [findMethod?_withField, Option.map_id']) fun _ _ => rfl
  have all (keys : List MethodKey) (m' : Module) :
      m'.Keeps (m'.registerAll c (t.fieldRef (c.trackingField t)) keys) := by
    induction keys generalizing m' with
    | nil => exact .refl m'
    | cons key rest ih => exact (keeps_registerIn c _ m' key).trans (ih _)
  exact (field.trans (keeps_instrumentConstructors _ _ _ _)).trans (all _ _)

theorem Keeps.fits {m m' : Module} {typeName : String} (kept : m.Keeps m')
    (fits : plan.Fits m d typeName) : plan.Fits m' d typeName := by
  cases fits with
  | existing owner found teardown final =>
    obtain ⟨own', found', same⟩ := kept.method found
    exact .existing owner found' ((isTeardown_of_outline same).trans teardown)
      ((MethodDef.finalExit?_of_outline same).trans final)
  | synthesize known found teardown =>
    obtain ⟨owner', known', _⟩ := findType?_of_shapes kept.shapes known
    obtain ⟨own', found', same⟩ := kept.method found
    exact .synthesize known' found' ((isTeardown_of_outline same).trans teardown)

/-! ## The override -/

/-- The call of the overridden teardown. -/
def baseCall (m : Module) (t owner : TypeDef) (inherited : MethodDef) : MethodRef :=
  { owner.methodRef inherited with declaring := m.ancestorRef t owner }

theorem findMethod?_synthesizeTeardown {t₀ : TypeDef} (known : m.findType? t.definitionName = some t₀)
    (owner : TypeDef) (ancestor : MethodKey) (inherited : MethodDef) (key : MethodKey) :
    (m.synthesizeTeardown t owner ancestor inherited).findMethod? key =
      (if key = m.nextMethodKey t.definitionName then
          some (overridingTeardown inherited (m.baseCall t owner inherited))
        else m.findMethod? key).map fun d =>
          if owner.isLocal = true ∧ key = ancestor then { d with flags := d.flags.opened } else d := by
  have added := findMethod?_addMethod known
    (overridingTeardown inherited (m.baseCall t owner inherited)) key
  unfold synthesizeTeardown
  dsimp only
  by_cases own : owner.isLocal = true
  · rw [if_pos own, findMethod?_modifyMethod]
    simp only [own, true_and]
    exact congrArg (Option.map _) added
  · rw [if_neg own]
    have skip (d : MethodDef) : (if owner.isLocal = true ∧ key = ancestor then
        { d with flags := d.flags.opened } else d) = d := if_neg fun both => own both.1
    simp only [skip, Option.map_id']
    exact added

/-- The override ends in a `ret`, whatever it overrides. -/
theorem finalExit?_overridingTeardown (inherited : MethodDef) (call : MethodRef) :
    (overridingTeardown inherited call).finalExit? = some (.nth 3) := rfl

/-- The teardown that a fitting plan leads to has a final exit. -/
theorem finalExit?_ensured {typeName : String} {t₀ : TypeDef} (fits : plan.Fits m d typeName)
    (known : m.findType? typeName = some t₀) :
    ∃ own exit, (m.ensured typeName plan).1.findMethod? (m.ensured typeName plan).2 = some own ∧
      own.finalExit? = some exit := by
  have named : t₀.definitionName = typeName := (mem_of_findType? known).2
  cases fits with
  | @existing key own exit owner found teardown final => exact ⟨own, exit, found, final⟩
  | @synthesize key owner inherited known' found teardown =>
    have next : (m.ensured typeName (.synthesize key)) =
        (m.synthesizeTeardown t₀ owner key inherited, m.nextMethodKey typeName) := by
      rw [ensured, known]
      simp only [ensureTeardown, Option.getD_some, known', found, named]
    rw [next]
    dsimp only
    rw [findMethod?_synthesizeTeardown (t := t₀) (by rw [named]; exact known), named, if_pos rfl]
    refine ⟨_, .nth 3, rfl, ?_⟩
    split
    · exact finalExit?_overridingTeardown inherited _
    · exact finalExit?_overridingTeardown inherited _

/-- Where the teardown has a final exit, the release finds its place. -/
theorem appendRelease_released {teardown : MethodKey} {own : MethodDef} {b : Body} {exit : Handle}
    (found : m.findMethod? teardown = some own) (body : own.body = some b)
    (final : b.finalExit? = some exit) (run : List Instr) :
    m.appendRelease teardown run =
      .ok (m.modifyBody teardown fun _ => b.released run, b.nextHandles run.length) := by
  simp only [appendRelease, found, Option.bind_some, body, final,
    Body.insertBeforeRetargeting_released final]

theorem appendRelease_eq {teardown : MethodKey} {own : MethodDef} {exit : Handle} (i : Instr)
    (run : List Instr) (found : m.findMethod? teardown = some own)
    (final : own.finalExit? = some exit) :
    ∃ handles, m.appendRelease teardown (i :: run) =
      .ok (m.releaseIn teardown (i :: run), handles) := by
  obtain ⟨b, body, last⟩ := Option.bind_eq_some_iff.1 final
  have same : m.modifyBody teardown (fun _ => b.released (i :: run)) =
      m.releaseIn teardown (i :: run) := by
    refine modifyMethod_congr fun own' found' => ?_
    rw [found] at found'
    cases found'
    rw [MethodDef.released, body]
    rfl
  exact ⟨_, same ▸ appendRelease_released found body last (i :: run)⟩

/-! ## The preparation -/

/-- What holds of a module and survives every override that a type needs holds after the
preparation. -/
theorem prepareTeardowns_induction (kept : Module → Prop) {targets : List Target} (start : kept m)
    (step : ∀ m t ancestor, kept m → m.findType? t.definitionName = some t →
      m.planTeardown d t = .ok (.synthesize ancestor) →
      kept (m.ensured t.definitionName (.synthesize ancestor)).1) :
    kept (Weave.prepareTeardowns d targets m).1 := by
  have each (types : List TypeDef) (start : Module × Nat) (first : kept start.1) :
      kept (types.foldl (fun prepared t =>
        ((Weave.prepareTeardown d t.definitionName prepared.1).1,
          prepared.2 + (Weave.prepareTeardown d t.definitionName prepared.1).2)) start).1 := by
    induction types generalizing start with
    | nil => exact first
    | cons t rest ih =>
      refine ih _ ?_
      show kept (Weave.prepareTeardown d t.definitionName start.1).1
      unfold Weave.prepareTeardown
      split
      · exact first
      · next t' known =>
        have named := (mem_of_findType? known).2
        split
        · exact first
        · split
          · next ancestor planned =>
            have ensured := step start.1 t' ancestor first (by rw [named]; exact known) planned
            rw [Module.ensured, named, known] at ensured
            exact ensured
          · exact first
  exact each _ (m, 0) start

end Module

end ReleaseWeaver
