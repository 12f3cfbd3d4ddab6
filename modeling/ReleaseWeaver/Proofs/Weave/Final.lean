import ReleaseWeaver.Proofs.Weave.Accounts
import ReleaseWeaver.Proofs.Weave.Exact

/-
  The module that a run leaves when it comes to its end, in closed form: what each type has for
  fields and each method for a body, told from the module that the passes start from. A type that
  no family releases stays as it was there.
-/

namespace ReleaseWeaver

/-- Whether a family releases the type of a name. -/
def WeaveReport.releases (r : WeaveReport) (family : Family) (typeName : String) : Bool :=
  r.targets.any fun entry =>
    entry.family = family && entry.typeName == typeName && entry.isReleased

/-- Whether any family releases the type of a name. -/
def WeaveReport.releasesAny (r : WeaveReport) (typeName : String) : Bool :=
  r.targets.any fun entry => entry.typeName == typeName && entry.isReleased

theorem WeaveReport.releasesAny_iff {r : WeaveReport} {typeName : String} :
    r.releasesAny typeName = true ↔ ∃ family, r.releases family typeName = true := by
  simp only [releasesAny, releases, List.any_eq_true, Bool.and_eq_true, decide_eq_true_eq, beq_iff_eq]
  constructor
  · rintro ⟨entry, listed, named, released⟩
    exact ⟨entry.family, entry, listed, ⟨rfl, named⟩, released⟩
  · rintro ⟨_, entry, listed, ⟨_, named⟩, released⟩
    exact ⟨entry, listed, named, released⟩

/-- What a run puts into a method of a local type that is not refused. -/
def Module.inserted (m : Module) (c : WeaveContext) (key : MethodKey) (d : MethodDef) :
    Insertions :=
  match (Weave.start c m).findType? key.owner with
  | some t => if t.isLocal && (m.fault? c key.owner).isNone then m.insertions c t key d else {}
  | none => {}

namespace Weave

open ReleaseWeaver.Module

variable {c : WeaveContext} {m : Module} {family : Family} {name : String} {t : TypeDef}
  {outcome : WeaveOutcome} {target : Target}

theorem mem_families (listed : target ∈ Target.select m c.markers family) : family ∈ c.families := by
  unfold WeaveContext.families
  cases family with
  | trackHandles => split <;> exact List.mem_cons_self
  | releaseCommands =>
    by_cases marked : c.markers.hasFamily .releaseCommands = true
    · rw [if_pos marked]
      exact List.mem_cons_of_mem _ List.mem_cons_self
    · rw [select_eq_nil (by simpa using marked)] at listed
      cases listed

/-- A family releases its targets, except those that are refused. -/
theorem releases_iff : (reports c m).releases family name = true ↔
    (∃ target ∈ Target.select m c.markers family, target.typeName = name) ∧
      m.fault? c name = none := by
  unfold WeaveReport.releases
  simp only [List.any_eq_true, Bool.and_eq_true, decide_eq_true_eq, beq_iff_eq]
  constructor
  · rintro ⟨entry, listed, ⟨rfl, rfl⟩, released⟩
    obtain ⟨family, _, target, selected, same⟩ := mem_reports listed
    have about : entry.target = target := same ▸ target_report c m family target
    have sort : entry.family = family :=
      (congrArg Target.family about).trans (of_mem_select selected).1
    refine ⟨⟨target, sort ▸ selected, (congrArg Target.typeName about).symm⟩, ?_⟩
    obtain ⟨e, _, refused⟩ | ⟨accepted, _⟩ := entry_cases listed
    · rw [refused] at released
      cases released
    · exact accepted
  · rintro ⟨⟨target, selected, rfl⟩, accepted⟩
    let entry := (c.pass m family).report c (start c m) target
    have listed : entry ∈ (reports c m).targets :=
      List.mem_flatMap.2 ⟨family, mem_families selected, List.mem_map_of_mem selected⟩
    have about : entry.target = target := target_report c m family target
    have named : entry.typeName = target.typeName := congrArg Target.typeName about
    refine ⟨entry, listed, ⟨(congrArg Target.family about).trans (of_mem_select selected).1, named⟩,
      ?_⟩
    obtain ⟨e, fault, _⟩ | ⟨_, released, _⟩ := entry_cases listed
    · rw [named, accepted] at fault
      cases fault
    · exact decide_eq_true released

namespace Completed

variable (completed : Completed c m outcome)

include completed

theorem keeps : (start c m).Keeps outcome.module := by
  obtain ⟨middle, handles, commands⟩ := completed.rounds
  exact (handles.keeps (c.lawful_pass m _)).trans (commands.keeps (c.lawful_pass m _))

theorem shapes : outcome.module.shapes = m.shapes :=
  completed.keeps.shapes.trans (shapes_start c m)

theorem header : outcome.module.header = m.header := by
  obtain ⟨middle, handles, commands⟩ := completed.rounds
  exact ((commands.header (c.lawful_pass m _)).trans (handles.header (c.lawful_pass m _))).trans
    (header_start c m)

/-- A type that no family releases stays as the passes find it. -/
theorem findType?_idle (idle : ∀ family, (reports c m).releases family name = false) :
    outcome.module.findType? name = (start c m).findType? name := by
  obtain ⟨middle, handles, commands⟩ := completed.rounds
  have refused (family : Family) (target : Target)
      (listed : target ∈ Target.select m c.markers family) (same : name = target.typeName) :
      m.fault? c name ≠ none := fun accepted =>
    Bool.eq_false_iff.1 (idle family) (releases_iff.2 ⟨⟨target, listed, same.symm⟩, accepted⟩)
  have first : middle.findType? name = (start c m).findType? name := by
    refine handles.findType?_idle (c.lawful_pass m _) fun target listed same t plan known planned => ?_
    refine refused .trackHandles target listed same ?_
    rw [← fault?_start]
    exact (fault?_eq_none known).2 ⟨plan, planned⟩
  rw [← first]
  refine commands.findType?_idle (c.lawful_pass m _) fun target listed same t plan known planned => ?_
  refine refused .releaseCommands target listed same ?_
  have known' := first.symm.trans known
  have plan' := (handles.keeps (c.lawful_pass m _)).requiredPlan (c := c) known' known
  rw [← fault?_start]
  exact (fault?_eq_none known').2 ⟨plan, plan'.symm.trans planned⟩

end Completed

/-- A type that is released keeps the teardown that it has when the passes start. -/
theorem planned_of_releases (collected : c.markers = MarkerTable.collect m c.config.markers)
    (released : (reports c m).releases family name = true) :
    ∃ t teardown, (start c m).findType? name = some t ∧ t.isLocal = true ∧
      (∃ target, Target.ofType? c.markers family t = some target) ∧
      requiredPlan c t (start c m) = .ok (.existing teardown) := by
  obtain ⟨⟨target, listed, rfl⟩, accepted⟩ := releases_iff.1 released
  obtain ⟨_, t, known⟩ := of_mem_select listed
  obtain ⟨t', known', _⟩ := findType?_of_shapes (shapes_start c m) known
  rw [← fault?_start] at accepted
  obtain ⟨plan, planned⟩ := (fault?_eq_none known').1 accepted
  obtain ⟨teardown, rfl⟩ := settled_start c m family target listed t' plan known' planned
  obtain ⟨isLocal, chosen⟩ :=
    (Target.mem_select_iff known').1 ((select_start collected family).symm ▸ listed)
  exact ⟨t', teardown, known', isLocal, ⟨target, chosen⟩, planned⟩

/-- A family releases the types that it chooses, except those that are refused. -/
theorem releases_of_chosen (collected : c.markers = MarkerTable.collect m c.config.markers)
    (known : (start c m).findType? name = some t) (isLocal : t.isLocal = true)
    (accepted : m.fault? c name = none)
    (chosen : Target.ofType? c.markers family t = some target) :
    target ∈ Target.select m c.markers family ∧ target.typeName = name ∧
      (reports c m).releases family name = true := by
  have named := (Target.typeName_of_ofType? chosen).1.trans (mem_of_findType? known).2
  have listed := (Target.mem_select_iff (named ▸ known)).2 ⟨isLocal, chosen⟩
  rw [select_start collected] at listed
  exact ⟨listed, named, releases_iff.2 ⟨⟨target, listed, named⟩, accepted⟩⟩

theorem commandGetters_of_none (unmarked : Target.ofType? c.markers .releaseCommands t = none) :
    m.commandGetters c t = [] := by
  rw [commandGetters, unmarked]
  cases Collaborators.resolveCapability m c.config <;> rfl

/-- Nothing goes into the methods of a type that no family releases. -/
theorem inserted_idle (collected : c.markers = MarkerTable.collect m c.config.markers)
    {key : MethodKey} (idle : ∀ family, (reports c m).releases family key.owner = false)
    (d : MethodDef) : m.inserted c key d = {} := by
  unfold Module.inserted
  split
  · next t known =>
    split
    · next accepted =>
      rw [Bool.and_eq_true, Option.isNone_iff_eq_none] at accepted
      have unmarked (family : Family) : Target.ofType? c.markers family t = none := by
        refine Option.eq_none_iff_forall_ne_some.2 fun target chosen => ?_
        obtain ⟨_, _, released⟩ := releases_of_chosen collected known accepted.1 accepted.2 chosen
        exact Bool.eq_false_iff.1 (idle family) released
      rw [insertions, unmarked, commandGetters_of_none (unmarked _), WeaveContext.insertions_none]
    · rfl
  · rfl

/-- Every method in the end is the one that the passes find, with what the run puts into it. -/
theorem Completed.findMethod? (completed : Completed c m outcome) (key : MethodKey) :
    outcome.module.findMethod? key =
      ((start c m).findMethod? key).map fun d => d.rewritten c (m.inserted c key d) := by
  have bound := completed.weavable.bound
  by_cases idle : ∀ family, (reports c m).releases family key.owner = false
  · simp only [inserted_idle bound.markers idle, MethodDef.rewritten_nil, Option.map_id']
    exact findMethod?_congr (completed.findType?_idle idle)
  · simp only [not_forall, Bool.not_eq_false] at idle
    obtain ⟨family, released⟩ := idle
    obtain ⟨t, teardown, known, isLocal, _, planned⟩ := planned_of_releases bound.markers released
    have named := (mem_of_findType? known).2
    obtain ⟨middle, handles, commands⟩ := completed.rounds
    have kept := handles.keeps (c.lawful_pass m _)
    rw [← select_start bound.markers] at handles commands
    rw [← select_commands_of_shapes kept.shapes] at commands
    have accepted := (releases_iff.1 released).2
    have inserted (d : MethodDef) : m.inserted c key d = m.insertions c t key d := by
      simp only [Module.inserted, known, isLocal, accepted, Option.isNone_none, Bool.and_self,
        if_true]
    simp only [inserted]
    exact findMethod?_passes bound.capability handles commands (by rw [named]; exact known) isLocal
      planned named.symm

/-- The command pass adds no field. -/
theorem Rounds.fieldsOf_commands {capability : TypeRef} {targets : List Target} {m m' : Module}
    (rounds : Rounds c (commandPass c capability) targets m m') (name : String) :
    m'.fieldsOf name = m.fieldsOf name := by
  induction rounds with
  | done => rfl
  | refused _ _ _ ih => exact ih
  | turn _ _ _ ih => exact ih.trans (fieldsOf_releaseTarget c _ _ _ _ name)

/-- A type gets the tracking field if it is a handle target that is released. -/
theorem Completed.fieldsOf (completed : Completed c m outcome) (known : m.findType? name = some t) :
    outcome.module.fieldsOf name = some (t.fields ++
      if (reports c m).releases .trackHandles name then [c.trackingField t] else []) := by
  obtain ⟨middle, handles, commands⟩ := completed.rounds
  have before : (start c m).fieldsOf name = some t.fields := by
    rw [fieldsOf_start, Module.fieldsOf, known, Option.map_some]
  rw [commands.fieldsOf_commands]
  split
  · next released =>
    obtain ⟨t', teardown, known', _, _, planned⟩ :=
      planned_of_releases completed.weavable.bound.markers released
    obtain ⟨⟨target, listed, rfl⟩, _⟩ := releases_iff.1 released
    obtain ⟨turned, _, known'', made⟩ := handles.findType?_turn (c.lawful_pass m _)
      (Target.nodup_select m _ _) listed known' planned
    have named : t'.definitionName = target.typeName := (mem_of_findType? known').2
    have field : c.trackingField t' = c.trackingField t := by
      have shape := shape_of_known (shapes_start c m) known known'
      show c.trackingField t'.shape = c.trackingField t.shape
      rw [shape]
    have same : middle.fieldsOf target.typeName =
        (turned.trackTarget c target t' (.existing teardown)).fieldsOf target.typeName :=
      congrArg (Option.map TypeDef.fields) made
    have earlier : turned.fieldsOf target.typeName = some t.fields := by
      rw [← before, Module.fieldsOf, Module.fieldsOf, known', known'']
    rw [same, fieldsOf_trackTarget, named, fieldsOf_withField, earlier, field, Option.map_some]
  · next idle =>
    have same : middle.findType? name = (start c m).findType? name := by
      refine handles.findType?_idle (c.lawful_pass m _) ?_
      rintro target listed rfl t plan known planned
      refine idle (releases_iff.2 ⟨⟨target, listed, rfl⟩, ?_⟩)
      rw [← fault?_start]
      exact (fault?_eq_none known).2 ⟨plan, planned⟩
    rw [List.append_nil, ← before, Module.fieldsOf, Module.fieldsOf, same]

end Weave

end ReleaseWeaver
