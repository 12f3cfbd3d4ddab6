import ReleaseWeaver.Proofs.Weave.Failures
import ReleaseWeaver.Proofs.Weave.Preparation

/-
  After the preparation no target needs an override any more, and the passes leave every plan as
  it is: they keep the outline of every method. So a target whose plan keeps its teardown keeps it
  until its turn, and the passes over other targets do not touch it.
-/

namespace ReleaseWeaver

namespace Module

variable {m m' : Module} {d : Disposal} {t t' : TypeDef} {name : String}

/-- After the preparation no target needs an override. -/
theorem NeedsOverride.of_prepareTeardowns {targets : List Target}
    (needs : (Weave.prepareTeardowns d targets m).1.NeedsOverride d name) :
    ∀ target ∈ targets, target.typeName ≠ name := by
  obtain ⟨given, run⟩ := Weave.preparation_run d targets m
  obtain ⟨⟨t, known, _⟩, unlisted⟩ := run.needsOverride_iff.1 needs
  intro target listed same
  exact unlisted (Weave.mem_preparationOrder.2 ⟨⟨t, known⟩, target, listed, same⟩)

/-! ## Plans that stay -/

variable {c : WeaveContext} {target : Target}

theorem Keeps.teardownStub? (kept : m.Keeps m') (name : String) :
    m'.teardownStub? d name = m.teardownStub? d name := by
  refine teardownStub?_congr fun key _ => ?_
  have outlines := congrArg (Option.map fun outline : MethodDef × Option Handle =>
    (outline.1.core, outline.2)) (kept.methods key)
  rw [Option.map_map, Option.map_map] at outlines
  exact outlines

theorem Keeps.requiredPlan (kept : m.Keeps m') (known : m.findType? name = some t)
    (known' : m'.findType? name = some t') :
    Weave.requiredPlan c t' m' = Weave.requiredPlan c t m := by
  have same := shape_of_known kept.shapes known known'
  rw [Weave.requiredPlan, Weave.requiredPlan, isDisposable_of_shapes kept.shapes same,
    planTeardown_congr kept.shapes kept.teardownStub? known known', (mem_of_findType? known).2,
    (mem_of_findType? known').2]

/-- A target that keeps its teardown is woven without a change to any outline. -/
theorem keeps_trackTarget (c : WeaveContext) (target : Target) (t : TypeDef) (key : MethodKey)
    (m : Module) : m.Keeps (m.trackTarget c target t (.existing key)) :=
  (keeps_instrumented c target t m).trans (keeps_releaseIn _ key _)

theorem keeps_releaseTarget (c : WeaveContext) (getters : List MethodRef) (target : Target)
    (key : MethodKey) (m : Module) : m.Keeps (m.releaseTarget c getters target (.existing key)) := by
  show m.Keeps (getters.foldl (fun m getter =>
    m.releaseIn key (releaseProperty getter c.collaborators.contractRelease)) m)
  induction getters generalizing m with
  | nil => exact .refl m
  | cons getter rest ih => exact (keeps_releaseIn m key _).trans (ih _)

/-! ## What the command pass reads -/

theorem select_commands_of_shapes (shapes : m'.shapes = m.shapes) (table : MarkerTable) :
    Target.select m' table .releaseCommands = Target.select m table .releaseCommands := by
  have through (m : Module) : Target.select m table .releaseCommands =
      (m.shapes.filter TypeDef.isLocal).filterMap (Target.ofType? table .releaseCommands) := by
    rw [Module.shapes, List.filter_map, List.filterMap_map]
    rfl
  rw [through, through, shapes]

/-- The search for a type reads the supertypes that the references on its way lead to. -/
theorem reaches_congr_supertypes
    (same : ∀ ref, (m'.resolve? ref).map TypeDef.supertypes = (m.resolve? ref).map TypeDef.supertypes)
    (target : TypeRef) (seen : List String) (pending : List TypeRef) :
    m'.reaches target seen pending = m.reaches target seen pending := by
  fun_induction m.reaches target seen pending with
  | case1 seen => rw [reaches]
  | case2 seen current rest found => rw [reaches, if_pos found]
  | case3 seen current rest other known ih => rw [reaches, if_neg other, dif_pos known, ih]
  | case4 seen current rest other new unknown ih =>
    have unknown' := same current
    rw [unknown, Option.map_none, Option.map_eq_none_iff] at unknown'
    rw [reaches, if_neg other, dif_neg new]
    split
    · exact ih
    · next found =>
      rw [unknown'] at found
      cases found
  | case5 seen current rest other new t found _ ih =>
    have found' := same current
    rw [found] at found'
    obtain ⟨t', known', supertypes⟩ := Option.map_eq_some_iff.1 found'
    rw [reaches, if_neg other, dif_neg new]
    split
    · next unknown =>
      rw [unknown] at known'
      cases known'
    · next u known =>
      rw [known] at known'
      cases known'
      dsimp only
      rw [supertypes]
      exact ih

theorem reaches_congr
    (same : ∀ ref, (m'.resolve? ref).map TypeDef.shape = (m.resolve? ref).map TypeDef.shape)
    (target : TypeRef) (seen : List String) (pending : List TypeRef) :
    m'.reaches target seen pending = m.reaches target seen pending := by
  refine reaches_congr_supertypes (fun ref => ?_) target seen pending
  have supertypes := congrArg (Option.map TypeDef.supertypes) (same ref)
  rw [Option.map_map, Option.map_map] at supertypes
  exact supertypes

theorem Keeps.methodRef? (kept : m.Keeps m') (key : MethodKey) :
    m'.methodRef? key = m.methodRef? key := by
  have through (m : Module) : m.methodRef? key = (m.findType? key.owner).bind fun t =>
      (m.findMethod? key).map t.methodRef := by
    rw [Module.methodRef?, findMethod?]
    cases m.findType? key.owner <;> rfl
  have outlines := kept.methods key
  rw [through, through]
  cases known : m.findType? key.owner with
  | none =>
    rw [unknown_of_shapes kept.shapes known]
    rfl
  | some t =>
    obtain ⟨t', known', same⟩ := findType?_of_shapes kept.shapes known
    have self : t'.selfRef = t.selfRef := by
      show t'.shape.selfRef = t.shape.selfRef
      rw [same]
    have refs (t : TypeDef) (m : Module) : (m.findMethod? key).map t.methodRef =
        ((m.findMethod? key).map MethodDef.outline).map fun outline =>
          { declaring := t.selfRef, name := outline.1.name, returns := outline.1.returns,
            params := outline.1.params, hasThis := !outline.1.isStatic } := by
      rw [Option.map_map]
      rfl
    rw [known', Option.bind_some, Option.bind_some, refs, refs, outlines, self]

/-- The getters that a command target releases are the same at its turn as before the passes. -/
theorem Keeps.releasableGetters (kept : m.Keeps m') {c : WeaveContext} (capability : TypeRef)
    (target : Target) (known : m.findType? name = some t)
    (known' : m'.findType? name = some t') :
    Weave.releasableGetters c capability m' target t' =
      Weave.releasableGetters c capability m target t := by
  have same := shape_of_known kept.shapes known known'
  have properties : target.properties c.markers t' = target.properties c.markers t := by
    show target.properties c.markers t'.shape = target.properties c.markers t.shape
    rw [same]
  have refs : m'.methodRef? = m.methodRef? := funext kept.methodRef?
  have assignable : m'.isAssignable = m.isAssignable := by
    funext ref target
    exact reaches_congr (resolve?_of_shapes kept.shapes) target [] [ref]
  rw [Weave.releasableGetters, Weave.releasableGetters, properties, refs, assignable]

end Module

namespace Weave

open ReleaseWeaver.Module

variable {c : WeaveContext} {capability : Option TypeRef} {targets : List Target}
  {m m' : Module}

/-- The plan of each target refuses it or keeps its teardown. -/
def Settled (c : WeaveContext) (targets : List Target) (m : Module) : Prop :=
  ∀ target ∈ targets, ∀ t plan, m.findType? target.typeName = some t →
    requiredPlan c t m = .ok plan → ∃ key, plan = .existing key

theorem Settled.of_keeps (settled : Settled c targets m) (kept : m.Keeps m') :
    Settled c targets m' := by
  intro target listed t' plan known' planned
  obtain ⟨t, known, _⟩ := findType?_of_shapes kept.shapes.symm known'
  exact settled target listed t plan known (kept.requiredPlan known known' ▸ planned)

theorem Settled.tail {target : Target} (settled : Settled c (target :: targets) m) :
    Settled c targets m := fun other listed => settled other (List.mem_cons_of_mem target listed)

/-- Where no target needs an override nothing is prepared. -/
theorem prepareTeardowns_idle {d : Disposal} {targets : List Target}
    (idle : ∀ target ∈ targets, ¬m.NeedsOverride d target.typeName) :
    prepareTeardowns d targets m = (m, 0) := by
  refine List.foldlRecOn (motive := (· = (m, 0))) _ _ rfl fun prepared same t listed => ?_
  obtain ⟨_, target, among, named⟩ := mem_preparationOrder.1 (List.mem_map_of_mem listed)
  rw [same]
  dsimp only
  rw [prepareTeardown_idle (named ▸ idle target among)]
  rfl

/-- The targets of a preparation are settled by it. -/
theorem settled_prepareTeardowns (c : WeaveContext) (targets : List Target) (m : Module) :
    Settled c targets (prepareTeardowns c.disposal targets m).1 := by
  intro target listed t plan known planned
  cases plan with
  | existing key => exact ⟨key, rfl⟩
  | synthesize ancestor =>
    unfold requiredPlan at planned
    split at planned
    · cases planned
    · next disposable =>
      have needs : (prepareTeardowns c.disposal targets m).1.NeedsOverride c.disposal
          target.typeName := ⟨t, known, by simpa using disposable, ancestor, planned⟩
      exact absurd rfl (needs.of_prepareTeardowns target listed)

theorem settled_prepared (c : WeaveContext) (capability : Option TypeRef) (m : Module) :
    Settled c (allTargets m c.markers capability) (prepared c capability m) :=
  settled_prepareTeardowns c (allTargets m c.markers capability) m

/-- The handle targets of a run are settled. -/
theorem settled_handles (collected : c.markers = MarkerTable.collect m c.config.markers)
    (capability : Option TypeRef) :
    Settled c (Target.select (prepared c capability m) c.markers .trackHandles)
      (prepared c capability m) := by
  intro target listed
  refine settled_prepared c capability m target (List.mem_append_left _ ?_)
  rw [collected] at listed ⊢
  exact Target.mem_select_of_shapes (prepared_kept c capability m).1 listed

/-- The command targets of a run, which the handle pass leaves as they are, are settled. -/
theorem settled_commands {capability : TypeRef}
    (kept : (prepared c (some capability) m).Keeps m') :
    Settled c (Target.select m' c.markers .releaseCommands) m' := by
  refine Settled.of_keeps (fun target listed => ?_) kept
  have shapes := kept.shapes.trans (prepared_kept c (some capability) m).1
  rw [select_commands_of_shapes shapes] at listed
  exact settled_prepared c (some capability) m target (List.mem_append_right _ listed)

/-- The handle pass changes no outline. -/
theorem TrackPass.keeps {entries : List TargetReport} {r : Option WeaveError}
    (pass : TrackPass c targets m entries r m') (settled : Settled c targets m) : m.Keeps m' := by
  induction pass with
  | done => exact .refl _
  | refused _ _ _ ih => exact ih settled.tail
  | @woven target _ m t _ _ _ _ known planned _ _ ih =>
    obtain ⟨key, rfl⟩ := settled _ List.mem_cons_self _ _ known planned
    have kept := keeps_trackTarget c target t key m
    exact kept.trans (ih (settled.tail.of_keeps kept))
  | clash => exact .refl _

/-- The command pass changes no outline. -/
theorem ReleasePass.keeps {capability : TypeRef} {entries : List TargetReport}
    (pass : ReleasePass c capability targets m entries m') (settled : Settled c targets m) :
    m.Keeps m' := by
  induction pass with
  | done => exact .refl _
  | refused _ _ _ ih => exact ih settled.tail
  | @woven target _ m t _ _ _ known planned _ ih =>
    obtain ⟨key, rfl⟩ := settled _ List.mem_cons_self _ _ known planned
    have kept := keeps_releaseTarget c (releasableGetters c capability m target t) target key m
    exact kept.trans (ih (settled.tail.of_keeps kept))

end Weave

end ReleaseWeaver
