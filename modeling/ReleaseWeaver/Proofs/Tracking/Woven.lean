import ReleaseWeaver.Proofs.Tracking.Arranged
import ReleaseWeaver.Proofs.Tracking.Flow
import ReleaseWeaver.Proofs.Weave.Bindings

/-
  A whole run of the weaver, for one target that it weaves. Before the target the bodies avoid
  its tracking field; the handle pass arranges its bodies; and what comes after, other targets
  and the command pass, leaves them arranged. So every body of the woven module is staged.
-/

namespace ReleaseWeaver

open Machine (Watch)

/-- Woven code is standard where the configuration names the default container, helper and
release method. -/
theorem Collaborators.standard_of_resolve {m : Module} {config : Config} {c : Collaborators}
    (found : resolve m config = .ok c)
    (container : config.trackingContainer = Config.default.trackingContainer)
    (helper : config.registrationHelper = Config.default.registrationHelper)
    (release : config.releaseMethod = Config.default.releaseMethod) : c.Standard := by
  obtain ⟨type, helperType, d₁, d₂, d₃, named, owner, ⟨fits₁, makes⟩, ⟨fits₂, releases⟩, called,
    ⟨contract, fits₃⟩, helps⟩ := resolve_eq_ok found
  simp only [isDefaultConstructor, isRelease, hasHelperSignature, Bool.and_eq_true,
    List.isEmpty_iff, beq_iff_eq] at fits₁ fits₂ fits₃
  rw [container] at named
  rw [helper] at owner called
  rw [release] at fits₂
  refine ⟨?_, ?_, ?_, ?_, ?_, ?_, ?_, ?_⟩
  · rw [makes]
    exact fits₁.2
  · rw [makes]
    exact named
  · rw [releases]
    exact fits₂.1.2
  · rw [releases]
    exact named
  · rw [releases]
    exact fits₂.1.1
  · rw [helps, MethodRef.arity, TypeDef.methodRef, fits₃.1.1]
    have two : d₃.params.length = 2 := List.length_eq_of_beq (eq_iff_iff.1 rfl |>.1 fits₃.1.2)
    rw [two]
    rfl
  · rw [helps]
    exact owner
  · rw [helps]
    exact called

namespace Weave

variable {c : WeaveContext} {target : Target} {targets : List Target} {m m' : Module}
  {field : String} {w : Watch}

/-! ## Before the passes -/

/-- What holds of the bodies of a module, and of every body that neither touches a field nor
branches, holds of the bodies after the preparation. -/
theorem prepared_bodies (good : MethodKey → Body → Prop) {d : Disposal}
    (overrides : ∀ key (b : Body), (∀ l ∈ b.lines, l.2.accessed? = none ∧ l.2.target? = none) →
      good key b)
    (start : ∀ key own b, m.findMethod? key = some own → own.body = some b → good key b) :
    ∀ key own b, (prepareTeardowns d targets m).1.findMethod? key = some own →
      own.body = some b → good key b := by
  refine Module.prepareTeardowns_induction (fun m => ∀ key own b, m.findMethod? key = some own →
    own.body = some b → good key b) start fun m t ancestor kept known planned => ?_
  intro key own b found body
  have fits := Module.fits_of_planTeardown (Module.mem_of_findType? known).1 planned
  obtain same | ⟨_, _, inherited, call, added⟩ := (Module.core_ensured fits known).2 key
  · rw [found] at same
    obtain ⟨own₀, found₀, core⟩ := Option.map_eq_some_iff.1 same.symm
    exact kept key own₀ b found₀ ((MethodDef.body_of_core core).trans body)
  · rw [found] at added
    have body' : (Module.overridingTeardown inherited call).body = some b :=
      (MethodDef.body_of_core (Option.some.inj added)).symm.trans body
    exact overrides key b (Module.lines_overridingTeardown body')

/-! ## The passes -/

theorem Weaves.mem (weaves : Weaves c target targets m m') : target ∈ targets := by
  induction weaves with
  | refused _ _ _ ih => exact List.mem_cons_of_mem _ ih
  | before _ _ _ ih => exact List.mem_cons_of_mem _ ih
  | here => exact List.mem_cons_self

/-- No other target has this tracking field. -/
def Apart (c : WeaveContext) (targets : List Target) (owner field : String) (m : Module) : Prop :=
  ∀ other ∈ targets, other.typeName ≠ owner → ∀ t, m.findType? other.typeName = some t →
    (c.trackingField t).name ≠ field

theorem trackingField_of_shapes (shapes : m'.shapes = m.shapes) {name : String} {t' : TypeDef}
    (known : m'.findType? name = some t') : ∃ t, m.findType? name = some t ∧
      (c.trackingField t').name = (c.trackingField t).name := by
  obtain ⟨t, known', shaped⟩ := Module.findType?_of_shapes shapes.symm known
  have name : t.shape.name = t'.shape.name := by rw [shaped]
  exact ⟨t, known', congrArg (trackingFieldName c.config.fieldPrefix) name.symm⟩

theorem Apart.of_shapes {owner : String} (apart : Apart c targets owner field m)
    (shapes : m'.shapes = m.shapes) : Apart c targets owner field m' := by
  intro other listed ne t' known'
  obtain ⟨t, known, same⟩ := trackingField_of_shapes (c := c) shapes known'
  rw [same]
  exact apart other listed ne t known

theorem Apart.tail {owner : String} {other : Target}
    (apart : Apart c (other :: targets) owner field m) : Apart c targets owner field m :=
  fun other' listed => apart other' (List.mem_cons_of_mem other listed)

/-- The handle pass goes on with other targets. -/
theorem TrackPass.arranged {entries : List TargetReport} {r : Option WeaveError} {owner : String}
    (pass : TrackPass c targets m entries r m') (others : ∀ other ∈ targets, other.typeName ≠ owner)
    (apart : Apart c targets owner w.field m) (arranged : m.Arranged c.disposal owner w) :
    m'.Arranged c.disposal owner w := by
  induction pass with
  | done => exact arranged
  | refused _ _ _ ih =>
    exact ih (fun other listed => others other (List.mem_cons_of_mem _ listed)) apart.tail arranged
  | @woven other rest m t plan _ _ _ known planned _ _ ih =>
    have ne := others other List.mem_cons_self
    have aside : m.Aside owner w.field (m.trackTarget c other t plan) :=
      Module.aside_trackTarget known planned ne (apart other List.mem_cons_self ne t known)
    exact ih (fun other' listed => others other' (List.mem_cons_of_mem _ listed))
      (apart.tail.of_shapes aside.shapes) (arranged.of_aside aside)
  | clash => exact arranged

/-- Where a type declares its teardown, a plan keeps it. -/
theorem eq_existing_of_requiredPlan {t : TypeDef} {plan : TeardownPlan} {key : MethodKey}
    {own : MethodDef} (planned : requiredPlan c t m = .ok plan)
    (declared : t.ownTeardown? c.disposal = some (key, own)) : plan = .existing key := by
  unfold requiredPlan at planned
  split at planned
  · cases planned
  unfold Module.planTeardown at planned
  rw [declared] at planned
  dsimp only at planned
  split at planned
  · cases planned
    rfl
  · cases planned

/-- The command pass leaves the bodies of the target arranged. -/
theorem ReleasePass.arranged {capability : TypeRef} {entries : List TargetReport} {owner : String}
    (pass : ReleasePass c capability targets m entries m') (arranged : m.Arranged c.disposal owner w) :
    m'.Arranged c.disposal owner w := by
  induction pass with
  | done => exact arranged
  | refused _ _ _ ih => exact ih arranged
  | @woven target rest m t plan _ _ known planned _ ih =>
    refine ih ?_
    by_cases own : target.typeName = owner
    · obtain ⟨_, declared⟩ := arranged.teardown.own (own ▸ known)
      have plan := eq_existing_of_requiredPlan planned declared
      subst plan
      exact arranged.releaseAll (releasableGetters c capability m target t)
        c.collaborators.contractRelease
    · exact arranged.of_aside (Module.aside_releaseTarget _ known planned own)

/-- The handle pass, from its start to its end, arranges the bodies of a target that it weaves. -/
theorem Weaves.arranged (weaves : Weaves c target targets m m')
    (standard : c.collaborators.Standard) (once : (targets.map Target.typeName).Nodup)
    (named : ∀ t, m.findType? target.typeName = some t → (c.trackingField t).name = field)
    (apart : Apart c targets target.typeName field m)
    (avoids : ∀ key own, m.findMethod? key = some own → own.Avoids field)
    (bound : ∀ key own b, key.owner = target.typeName → m.findMethod? key = some own →
      own.body = some b → b.Bound) :
    ∃ w : Watch, w.field = field ∧ (∀ key h, (key, h) ∈ w.sites ↔ (key, h) ∈ target.sites c m) ∧
      m'.Arranged c.disposal target.typeName w := by
  induction weaves with
  | refused _ _ _ ih =>
    exact ih (List.nodup_cons.1 once).2 named apart.tail avoids bound
  | @before other rest m t plan _ known planned weaves ih =>
    obtain ⟨fresh, once'⟩ := List.nodup_cons.1 once
    have ne : other.typeName ≠ target.typeName :=
      fun same => fresh (same ▸ List.mem_map_of_mem weaves.mem)
    have aside : m.Aside target.typeName field (m.trackTarget c other t plan) :=
      Module.aside_trackTarget known planned ne (apart other List.mem_cons_self ne t known)
    have core (key : MethodKey) (own : MethodDef) (owned : key.owner = target.typeName)
        (found : (m.trackTarget c other t plan).findMethod? key = some own) :
        ∃ own₀, m.findMethod? key = some own₀ ∧ own.core = own₀.core := by
      have same := aside.own key owned
      rw [found] at same
      obtain ⟨own₀, found₀, core⟩ := Option.map_eq_some_iff.1 same.symm
      exact ⟨own₀, found₀, core.symm⟩
    have named' : ∀ t', (m.trackTarget c other t plan).findType? target.typeName = some t' →
        (c.trackingField t').name = field := by
      intro t' known'
      obtain ⟨t₀, known₀, same⟩ := trackingField_of_shapes (c := c) aside.shapes known'
      rw [same]
      exact named t₀ known₀
    have avoids' : ∀ key own, (m.trackTarget c other t plan).findMethod? key = some own →
        own.Avoids field := by
      intro key own found
      by_cases owned : key.owner = target.typeName
      · obtain ⟨own₀, found₀, same⟩ := core key own owned found
        exact (avoids key own₀ found₀).of_core same
      · exact aside.others (fun key own _ => avoids key own) key own owned found
    obtain ⟨w, field', sites, arranged⟩ := ih once' named' (apart.tail.of_shapes aside.shapes)
      avoids' fun key own b owned found body => by
        obtain ⟨own₀, found₀, same⟩ := core key own owned found
        exact bound key own₀ b owned found₀ ((MethodDef.body_of_core same).symm.trans body)
    refine ⟨w, field', fun key h => ?_, arranged⟩
    rw [sites, Target.mem_sites_of_core aside.own]
  | @here rest m t plan _ _ known planned pass =>
    obtain ⟨fresh, _⟩ := List.nodup_cons.1 once
    have same := named t known
    have arranged := Module.arranged_trackTarget known planned standard
      (fun key own found => same ▸ avoids key own found) bound
    refine ⟨_, same, fun key h => Iff.rfl, pass.arranged (fun other listed eq => ?_) ?_ arranged⟩
    · exact fresh (eq ▸ List.mem_map_of_mem listed)
    · dsimp only
      rw [same]
      exact apart.tail.of_shapes (Module.shapes_trackTarget c target t plan m)

end Weave

/-! ## The woven module -/

namespace Module

open Machine Machine.Program

variable {m : Module} {d : Disposal} {owner : String} {w : Watch}

/-- The bodies of a module with an arranged target are staged. -/
theorem Arranged.staging (arranged : m.Arranged d owner w) : ∃ role, Staging m w role := by
  have each (key : MethodKey) : ∃ role, (∀ own b, m.findMethod? key = some own →
      own.body = some b → b.Staged w.field (fun h => (key, h) ∈ w.sites) role ∧
        (key = w.teardown → ∀ exit, b.finalExit? = some exit → role exit = .released)) ∧
      (key ≠ w.teardown → ∀ h, role h ≠ .released) := by
    have plain : key ≠ w.teardown → ∀ _ : Handle, Role.plain ≠ .released :=
      fun _ _ => by decide
    cases found : m.findMethod? key with
    | none => exact ⟨fun _ => .plain, fun own b impossible => (by cases impossible), plain⟩
    | some own =>
      cases body : own.body with
      | none =>
        refine ⟨fun _ => .plain, fun own' b same body' => ?_, plain⟩
        cases same
        rw [body] at body'
        cases body'
      | some b =>
        by_cases owned : key.owner = owner
        · obtain ⟨role, staged, done, clear⟩ := (arranged.own key own b owned found body).staged
          refine ⟨role, fun own' b' same body' => ?_, clear⟩
          cases same
          rw [body] at body'
          cases body'
          exact ⟨staged, done⟩
        · refine ⟨fun _ => .plain, fun own' b' same body' => ⟨?_, fun last => ?_⟩, plain⟩
          · cases same
            have sites : (fun h => (key, h) ∈ w.sites) = fun _ => False := by
              funext h
              rw [eq_iff_iff, iff_false]
              exact fun site => owned (arranged.sites key h site)
            rw [sites]
            exact Body.staged_plain (arranged.others key own owned found b' body')
          · exact absurd (last ▸ arranged.teardown.owned) owned
  choose role staged clear using each
  refine ⟨role, fun {key own b} known => ?_, fun {own b exit} known final => ?_, clear⟩
  · obtain ⟨found, body⟩ := hasBody_iff.1 known
    exact (staged key own b found body).1
  · obtain ⟨found, body⟩ := hasBody_iff.1 known
    exact (staged w.teardown own b found body).2 rfl exit final

end Module

end ReleaseWeaver
