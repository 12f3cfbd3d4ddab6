import ReleaseWeaver.Proofs.Tracking.Aside
import ReleaseWeaver.Proofs.Tracking.Events
import ReleaseWeaver.Proofs.Tracking.Staging

/-
  What the handle pass makes of its target. Every body of the target gets its prologue, its
  registrations and its release in places where they stay together, and the teardown comes to its
  final exit with the container released. Later passes put nothing in between.
-/

namespace ReleaseWeaver

open Machine (Watch)

/-! ## Bodies -/

namespace Body

variable {b : Body} {field : String} {sites : Handle → Prop} {role : Handle → Role}
  {c : WeaveContext} {f : FieldRef}

/-- A body with its handle calls and roles, before any release. -/
structure Tracked (b : Body) (field : String) (sites : Handle → Prop) (role : Handle → Role) :
    Prop where
  bound : b.Bound
  listed : ∀ h, sites h → h ∈ b.handles
  staged : b.Staged field sites role
  clear : ∀ h, role h ≠ .released

/-- A woven body; `last` says that it comes to its final exit with the container released, and
that no other body releases it. -/
structure Arranged (b : Body) (field : String) (sites : Handle → Prop) (last : Prop) : Prop where
  bound : b.Bound
  listed : ∀ h, sites h → h ∈ b.handles
  staged : ∃ role, b.Staged field sites role ∧
    (last → ∀ exit, b.finalExit? = some exit → role exit = .released) ∧
    (¬last → ∀ h, role h ≠ .released)

theorem not_site_fresh (listed : ∀ h, sites h → h ∈ b.handles) (j : Nat) :
    ¬sites (.nth (b.length + 1 + j)) := fun site => nth_not_mem_handles j (listed _ site)

theorem tracked_plain (avoids : b.Avoids field) (bound : b.Bound) :
    b.Tracked field (fun _ => False) fun _ => .plain :=
  ⟨bound, fun _ impossible => impossible.elim, staged_plain avoids, fun _ => by decide⟩

/-- The prologue leaves the other instructions plain. -/
theorem tracked_prologue (avoids : b.Avoids field) (bound : b.Bound) (named : f.name = field)
    (standard : c.collaborators.Standard) :
    ∃ role, (b.insertAt 0 (prologue f c.collaborators.containerConstructor)).Tracked field
      (fun _ => False) role ∧ ∀ h ∈ b.handles, role h = .plain := by
  obtain ⟨bound', staged⟩ := (staged_plain avoids).prologue bound (fun _ => id) named standard
  refine ⟨_, ⟨bound', fun _ impossible => impossible.elim, staged, ?_⟩, fun h listed => ?_⟩
  · exact spliceRole_ne (fun _ => by decide) (by decide) (by decide)
  · rw [spliceRole_old listed]

/-- The registrations make the handle calls the sites of the body. -/
theorem Tracked.registered (tracked : b.Tracked field (fun _ => False) role)
    (named : f.name = field) (standard : c.collaborators.Standard)
    (plain : ∀ h ∈ b.handleCalls c.collaborators.contract c.config.handleCallFragment,
      role h = .plain) :
    ∃ role', (b.registered c f).Tracked field
      (· ∈ b.handleCalls c.collaborators.contract c.config.handleCallFragment) role' := by
  obtain ⟨bound, role', clear, staged⟩ := tracked.staged.insertAfterEach tracked.bound
    (fun _ => id) tracked.clear named standard (nodup_handleCalls b _ _) fun h listed => by
      obtain ⟨i, line, call⟩ := mem_handleCalls.1 listed
      obtain ⟨method, isVirtual, rfl, contract, _⟩ := Instr.isHandleCall_iff.1 call
      refine ⟨plain h listed, method, isVirtual, line, ?_⟩
      cases returns : method.returns with
      | none =>
        rw [returns] at contract
        cases contract
      | some _ => rfl
  have same : (fun k => False ∨ k ∈ b.handleCalls c.collaborators.contract
      c.config.handleCallFragment) =
        (· ∈ b.handleCalls c.collaborators.contract c.config.handleCallFragment) := by
    funext k
    rw [false_or]
  rw [same] at staged
  refine ⟨role', bound, fun h site => ?_, staged, clear⟩
  have kept : ∀ l ∈ b.lines, l ∈ (b.registered c f).lines :=
    registered_induction (fun b' => ∀ l ∈ b.lines, l ∈ b'.lines) (fun _ listed => listed)
      fun _ _ _ _ lines _ _ _ l listed => mem_lines_insertAt.2 (.inl (lines l listed))
  obtain ⟨i, line, _⟩ := mem_handleCalls.1 site
  exact fst_mem_handles (kept _ line)

theorem Tracked.arranged (tracked : b.Tracked field sites role) : b.Arranged field sites False :=
  ⟨tracked.bound, tracked.listed, role, tracked.staged, False.elim, fun _ => tracked.clear⟩

theorem handles_released (i : Instr) (run : List Instr) :
    ∀ h ∈ b.handles, h ∈ (b.released (i :: run)).handles := by
  intro h listed
  cases final : b.finalExit? with
  | none =>
    rw [released, final]
    exact listed
  | some exit =>
    obtain ⟨p, _, _, _, result⟩ := released_eq i run final
    rw [result, handles_retarget]
    exact mem_handles_insertAt.2 (.inl listed)

/-- The release goes before the final exit, if there is one. -/
theorem Tracked.released (tracked : b.Tracked field sites role) (named : f.name = field)
    (standard : c.collaborators.Standard) :
    (b.released (releaseField f c.collaborators.containerRelease)).Arranged field sites True := by
  have listed (h : Handle) (site : sites h) :
      h ∈ (b.released (releaseField f c.collaborators.containerRelease)).handles :=
    handles_released _ _ h (tracked.listed h site)
  cases final : b.finalExit? with
  | none =>
    have same : b.released (releaseField f c.collaborators.containerRelease) = b := by
      rw [Body.released, final]
    rw [same]
    refine ⟨tracked.bound, tracked.listed, role, tracked.staged, fun _ exit final' => ?_,
      fun other => absurd trivial other⟩
    rw [final] at final'
    cases final'
  | some exit =>
    obtain ⟨bound, role', staged, done⟩ := tracked.staged.released tracked.bound
      (not_site_fresh tracked.listed) tracked.clear named standard final
    refine ⟨bound, listed, role', staged, fun _ exit' final' => ?_,
      fun other => absurd trivial other⟩
    rw [finalExit?_released, final] at final'
    cases final'
    exact done

/-- Another release before the final exit keeps the first one in its place. -/
theorem Arranged.released (arranged : b.Arranged field sites True) (getter release : MethodRef) :
    (b.released (releaseProperty getter release)).Arranged field sites True := by
  obtain ⟨role, staged, done, _⟩ := arranged.staged
  have listed (h : Handle) (site : sites h) : h ∈ (b.released (releaseProperty getter release)).handles :=
    handles_released _ _ h (arranged.listed h site)
  cases final : b.finalExit? with
  | none =>
    have same : b.released (releaseProperty getter release) = b := by
      rw [Body.released, final]
    rw [same]
    exact arranged
  | some exit =>
    obtain ⟨bound, role', staged', done'⟩ := staged.released_again arranged.bound
      (not_site_fresh arranged.listed) final (done trivial exit final)
      (accessed?_releaseProperty getter release)
    refine ⟨bound, listed, role', staged', fun _ exit' final' => ?_,
      fun other => absurd trivial other⟩
    rw [finalExit?_released, final] at final'
    cases final'
    exact done'

end Body

namespace Module

variable {m m' : Module} {d : Disposal} {owner : String} {key : MethodKey} {t : TypeDef}

/-! ## The target itself -/

section Instrumented

variable {c : WeaveContext} {target : Target}

theorem body_of_instrumented {own : MethodDef} {b : Body} (owned : key.owner = target.typeName)
    (found : (m.instrumented c target t).findMethod? key = some own) (body : own.body = some b) :
    ∃ own₀ b₀, m.findMethod? key = some own₀ ∧ own₀.body = some b₀ := by
  rw [findMethod?_instrumented owned] at found
  obtain ⟨own₀, found₀, rfl⟩ := Option.map_eq_some_iff.1 found
  cases body₀ : own₀.body with
  | some b₀ => exact ⟨own₀, b₀, found₀, body₀⟩
  | none =>
    have none (run : List Instr) : (own₀.withPrologue run).body = none := by
      unfold MethodDef.withPrologue
      split
      · rw [body₀]
        rfl
      · exact body₀
    split at body
    · rw [MethodDef.registered, none] at body
      cases body
    · rw [none] at body
      cases body

theorem isTeardown_withPrologue (own : MethodDef) (run : List Instr) :
    d.isTeardown (own.withPrologue run) = d.isTeardown own := by
  unfold MethodDef.withPrologue
  split <;> rfl

theorem isTeardown_instrumented (owned : key.owner = target.typeName) :
    ((m.instrumented c target t).findMethod? key).map d.isTeardown =
      (m.findMethod? key).map d.isTeardown := by
  rw [findMethod?_instrumented owned, Option.map_map]
  congr 1
  funext own
  rw [Function.comp_apply]
  split
  · exact isTeardown_withPrologue own _
  · exact isTeardown_withPrologue own _

/-- A body of the target with its prologue and its registrations. -/
theorem tracked_instrumented (known : m.findType? target.typeName = some t)
    (standard : c.collaborators.Standard) (owned : key.owner = target.typeName) {own : MethodDef}
    {b : Body} (found : m.findMethod? key = some own) (body : own.body = some b)
    (avoids : b.Avoids (c.trackingField t).name) (bound : b.Bound) :
    ∃ own' b' role, (m.instrumented c target t).findMethod? key = some own' ∧
      own'.body = some b' ∧
      b'.Tracked (c.trackingField t).name (fun h => (key, h) ∈ target.sites c m) role := by
  -- The prologue changes no handle call, and leaves every instruction of the body plain.
  have first : ∃ b₁ role, (own.withPrologue (prologue (t.fieldRef (c.trackingField t))
        c.collaborators.containerConstructor)).body = some b₁ ∧
      b₁.handleCalls c.collaborators.contract c.config.handleCallFragment =
        b.handleCalls c.collaborators.contract c.config.handleCallFragment ∧
      b₁.Tracked (c.trackingField t).name (fun _ => False) role ∧ ∀ h ∈ b.handles,
        role h = .plain := by
    unfold MethodDef.withPrologue
    split
    · obtain ⟨role, tracked, plain⟩ := Body.tracked_prologue (f := t.fieldRef (c.trackingField t))
        avoids bound rfl standard
      refine ⟨_, role, ?_, Body.handleCalls_prologue _ _ _, tracked, plain⟩
      rw [body]
      rfl
    · exact ⟨b, fun _ => .plain, body, rfl, Body.tracked_plain avoids bound, fun _ _ => rfl⟩
  obtain ⟨b₁, role, body₁, calls, tracked, plain⟩ := first
  have changed := findMethod?_instrumented (m := m) (t := t) (c := c) owned
  rw [found, Option.map_some] at changed
  by_cases inScope : key ∈ (target.methods c.markers t).map Prod.fst
  · rw [if_pos inScope] at changed
    obtain ⟨role', registered⟩ := tracked.registered (f := t.fieldRef (c.trackingField t)) rfl
      standard fun h called => by
        rw [calls] at called
        obtain ⟨i, line, _⟩ := Body.mem_handleCalls.1 called
        exact plain h (Body.fst_mem_handles line)
    obtain ⟨_, chosen, own', found', instanced⟩ := (Target.mem_keys_methods known).1 inScope
    rw [found] at found'
    cases found'
    have sites : (fun h => (key, h) ∈ target.sites c m) =
        (· ∈ b₁.handleCalls c.collaborators.contract c.config.handleCallFragment) := by
      funext h
      rw [calls, Target.mem_sites, eq_iff_iff]
      constructor
      · rintro ⟨_, _, own', b', found', _, body', called⟩
        rw [found] at found'
        cases found'
        rw [body] at body'
        cases body'
        exact called
      · exact fun called => ⟨owned, chosen, own, b, found, instanced, body, called⟩
    refine ⟨_, b₁.registered c (t.fieldRef (c.trackingField t)), role', changed, ?_,
      sites ▸ registered⟩
    rw [MethodDef.registered, body₁]
    rfl
  · rw [if_neg inScope] at changed
    have sites : (fun h => (key, h) ∈ target.sites c m) = fun _ => False := by
      funext h
      rw [Target.mem_sites, eq_iff_iff, iff_false]
      rintro ⟨_, chosen, own', _, found', instanced, _⟩
      exact inScope ((Target.mem_keys_methods known).2 ⟨owned, chosen, own', found', instanced⟩)
    exact ⟨_, b₁, role, changed, body₁, sites ▸ tracked⟩

end Instrumented

/-- A module in which a target is woven; no body of another type touches its tracking field. -/
structure Arranged (m : Module) (d : Disposal) (owner : String) (w : Watch) : Prop where
  others : ∀ key own, key.owner ≠ owner → m.findMethod? key = some own → own.Avoids w.field
  own : ∀ key own b, key.owner = owner → m.findMethod? key = some own → own.body = some b →
    b.Arranged w.field (fun h => (key, h) ∈ w.sites) (key = w.teardown)
  sites : ∀ key h, (key, h) ∈ w.sites → key.owner = owner
  teardown : m.IsTeardown d owner w.teardown

section Woven

variable {c : WeaveContext} {target : Target} {plan : TeardownPlan} {w : Watch}

/-- The order of the handle calls has no part in it. -/
theorem Arranged.of_sites {sites : List (MethodKey × Handle)} (arranged : m.Arranged d owner w)
    (same : ∀ key h, (key, h) ∈ sites ↔ (key, h) ∈ w.sites) :
    m.Arranged d owner { w with sites } where
  others := arranged.others
  own := by
    intro key own b owned found body
    have sites : (fun h => (key, h) ∈ sites) = fun h => (key, h) ∈ w.sites :=
      funext fun h => propext (same key h)
    dsimp only
    rw [sites]
    exact arranged.own key own b owned found body
  sites := fun key h site => arranged.sites key h ((same key h).1 site)
  teardown := arranged.teardown

theorem Arranged.of_aside (arranged : m.Arranged d owner w) (aside : m.Aside owner w.field m') :
    m'.Arranged d owner w where
  others := aside.others arranged.others
  own := by
    intro key own b owned found body
    have same := aside.own key owned
    rw [found] at same
    obtain ⟨own', found', core⟩ := Option.map_eq_some_iff.1 same.symm
    refine arranged.own key own' b owned found' ?_
    rw [MethodDef.body_of_core core, body]
  sites := arranged.sites
  teardown := arranged.teardown.of_same fun key owned => isTeardown_of_core (aside.own key owned)

/-- The command pass on the target itself. -/
theorem Arranged.releaseIn (arranged : m.Arranged d owner w) (getter release : MethodRef) :
    (m.releaseIn w.teardown (releaseProperty getter release)).Arranged d owner w where
  others := by
    intro key own other found
    rw [findMethod?_releaseIn] at found
    obtain ⟨own', found', rfl⟩ := Option.map_eq_some_iff.1 found
    have apart : key ≠ w.teardown := fun same => other (same ▸ arranged.teardown.owned)
    rw [if_neg apart]
    exact arranged.others key own' other found'
  own := by
    intro key own b owned found body
    rw [findMethod?_releaseIn] at found
    obtain ⟨own', found', rfl⟩ := Option.map_eq_some_iff.1 found
    by_cases last : key = w.teardown
    · rw [if_pos last] at body
      obtain ⟨b', body', rfl⟩ := Option.map_eq_some_iff.1 body
      have before := arranged.own key own' b' owned found' body'
      simp only [eq_true last] at before ⊢
      exact before.released getter release
    · rw [if_neg last] at body
      exact arranged.own key own' b owned found' body
  sites := arranged.sites
  teardown := by
    refine arranged.teardown.of_same fun key _ => ?_
    rw [findMethod?_releaseIn, Option.map_map]
    congr 1
    funext own
    rw [Function.comp_apply]
    split <;> rfl

theorem Arranged.releaseAll (arranged : m.Arranged d owner w) (getters : List MethodRef)
    (release : MethodRef) : (getters.foldl (fun m getter =>
      m.releaseIn w.teardown (releaseProperty getter release)) m).Arranged d owner w := by
  induction getters generalizing m with
  | nil => exact arranged
  | cons getter rest ih => exact ih (arranged.releaseIn getter release)

/-- The method that the release goes into is the first teardown of the target. -/
theorem isTeardown_ensured (known : m.findType? target.typeName = some t)
    (planned : Weave.requiredPlan c t m = .ok plan) :
    ((m.instrumented c target t).ensured target.typeName plan).1.IsTeardown c.disposal
      target.typeName ((m.instrumented c target t).ensured target.typeName plan).2 := by
  obtain ⟨t', known', _⟩ := findType?_of_shapes (shapes_instrumented c target t m) known
  have fits : plan.Fits (m.instrumented c target t) c.disposal target.typeName :=
    Weave.fits_instrumented known planned
  have flags (key : MethodKey) (owned : key.owner = target.typeName) :
      ((m.instrumented c target t).findMethod? key).map c.disposal.isTeardown =
        (m.findMethod? key).map c.disposal.isTeardown := isTeardown_instrumented owned
  unfold Weave.requiredPlan at planned
  split at planned
  · cases planned
  unfold planTeardown at planned
  cases declared : t.ownTeardown? c.disposal with
  | some keyed =>
    obtain ⟨key, own⟩ := keyed
    rw [declared] at planned
    dsimp only at planned
    split at planned
    · cases planned
      exact (isTeardown_of_own known declared).of_same flags
    · cases planned
  | none =>
    rw [declared] at planned
    dsimp only at planned
    cases plan with
    | existing key =>
      split at planned
      · cases planned
      · split at planned
        · cases planned
        · split at planned <;> cases planned
    | synthesize ancestor =>
      obtain ⟨next, inherited, declaring, teardown, each⟩ := core_synthesized fits known'
      rw [next]
      refine ⟨rfl, ?_, fun i before => ?_⟩
      · have added := each ((m.instrumented c target t).nextMethodKey target.typeName)
        rw [if_pos rfl] at added
        rw [isTeardown_of_core
            (y := some (overridingTeardown inherited (inherited.refIn declaring))) added,
          Option.map_some, isTeardown_overridingTeardown _ teardown]
      · have kept := each ⟨target.typeName, i⟩
        have other : (⟨target.typeName, i⟩ : MethodKey) ≠
            (m.instrumented c target t).nextMethodKey target.typeName := by
          intro same
          rw [← same] at before
          exact Nat.lt_irrefl i before
        rw [if_neg other] at kept
        rw [isTeardown_of_core kept, flags ⟨target.typeName, i⟩ rfl]
        exact not_isTeardown_of_own known declared i

/-- A body that a plan leaves in the target is tracked: it is one from before with its prologue and
its registrations, or an override, which has neither. -/
theorem tracked_ensured (known : m.findType? target.typeName = some t)
    (planned : Weave.requiredPlan c t m = .ok plan) (standard : c.collaborators.Standard)
    (avoids : ∀ key own, m.findMethod? key = some own → own.Avoids (c.trackingField t).name)
    (bound : ∀ key own b, key.owner = target.typeName → m.findMethod? key = some own →
      own.body = some b → b.Bound) (own : MethodDef) (b : Body)
    (owned : key.owner = target.typeName)
    (found : ((m.instrumented c target t).ensured target.typeName plan).1.findMethod? key = some own)
    (body : own.body = some b) : ∃ role,
      b.Tracked (c.trackingField t).name (fun h => (key, h) ∈ target.sites c m) role := by
  obtain ⟨t', known', _⟩ := findType?_of_shapes (shapes_instrumented c target t m) known
  obtain kept | ⟨_, none, inherited, call, added⟩ :=
    (core_ensured (Weave.fits_instrumented known planned) known').2 key
  · rw [found] at kept
    obtain ⟨own₁, found₁, core⟩ := Option.map_eq_some_iff.1 kept.symm
    have body₁ : own₁.body = some b := (MethodDef.body_of_core core).trans body
    obtain ⟨own₀, b₀, found₀, body₀⟩ := body_of_instrumented owned found₁ body₁
    obtain ⟨own₂, b₂, role, found₂, body₂, tracked⟩ := tracked_instrumented known standard owned
      found₀ body₀ (avoids key own₀ found₀ b₀ body₀) (bound key own₀ b₀ owned found₀ body₀)
    rw [found₁] at found₂
    cases found₂
    rw [body₁] at body₂
    cases body₂
    exact ⟨role, tracked⟩
  · rw [found] at added
    have body₁ : (overridingTeardown inherited call).body = some b :=
      (MethodDef.body_of_core (Option.some.inj added)).symm.trans body
    have sites : (fun h => (key, h) ∈ target.sites c m) = fun _ => False := by
      funext h
      rw [Target.mem_sites, eq_iff_iff, iff_false]
      rintro ⟨_, _, own₀, _, found₀, _⟩
      rw [findMethod?_instrumented owned, found₀] at none
      cases none
    rw [sites]
    exact ⟨_, Body.tracked_plain (avoids_overridingTeardown inherited call _ b body₁)
      (Body.bound_of_plain (lines_overridingTeardown body₁))⟩

/-- The handle pass on the target. -/
theorem arranged_trackTarget (known : m.findType? target.typeName = some t)
    (planned : Weave.requiredPlan c t m = .ok plan) (standard : c.collaborators.Standard)
    (avoids : ∀ key own, m.findMethod? key = some own → own.Avoids (c.trackingField t).name)
    (bound : ∀ key own b, key.owner = target.typeName → m.findMethod? key = some own →
      own.body = some b → b.Bound) :
    (m.trackTarget c target t plan).Arranged c.disposal target.typeName
      { field := (c.trackingField t).name
        sites := target.sites c m
        teardown := ((m.instrumented c target t).ensured target.typeName plan).2 } := by
  obtain ⟨t', known', _⟩ := findType?_of_shapes (shapes_instrumented c target t m) known
  obtain ⟨owned', each⟩ := core_ensured (Weave.fits_instrumented known planned) known'
  have teardown := isTeardown_ensured known planned
  have tracked (key : MethodKey) (own : MethodDef) (b : Body) (owned : key.owner = target.typeName) :=
    tracked_ensured known planned standard avoids bound own b owned
  unfold trackTarget
  generalize (m.instrumented c target t).ensured target.typeName plan = ensured at *
  obtain ⟨m', last⟩ := ensured
  dsimp only at owned' each teardown tracked ⊢
  refine ⟨fun key own other found => ?_, fun key own b owned found body => ?_, ?_, ?_⟩
  · have apart : key ≠ last := fun same => other (same ▸ owned')
    rw [findMethod?_releaseIn] at found
    obtain ⟨own', found', rfl⟩ := Option.map_eq_some_iff.1 found
    rw [if_neg apart]
    have kept := (each key).resolve_right fun new => apart new.1
    rw [found', findMethod?_instrumented_other known other] at kept
    obtain ⟨own₀, found₀, core⟩ := Option.map_eq_some_iff.1 kept.symm
    exact (avoids key own₀ found₀).of_core core.symm
  · rw [findMethod?_releaseIn] at found
    obtain ⟨own', found', rfl⟩ := Option.map_eq_some_iff.1 found
    by_cases release : key = last
    · rw [if_pos release] at body
      obtain ⟨b', body', rfl⟩ := Option.map_eq_some_iff.1 body
      obtain ⟨role, before⟩ := tracked key own' b' owned found' body'
      simp only [eq_true release]
      exact before.released (f := t.fieldRef (c.trackingField t)) rfl standard
    · rw [if_neg release] at body
      obtain ⟨role, before⟩ := tracked key own' b owned found' body
      simp only [eq_false release]
      exact before.arranged
  · exact fun key h site => (Target.mem_sites.1 site).1
  · refine teardown.of_same fun key _ => ?_
    rw [findMethod?_releaseIn, Option.map_map]
    congr 1
    funext own
    rw [Function.comp_apply]
    split <;> rfl

end Woven

end Module

end ReleaseWeaver
