import ReleaseWeaver.Proofs.Weave.Passes
import ReleaseWeaver.Sample.Scenario

/-
  Which errors leave a run. A collaborator that is missing stops the run before anything changes;
  afterwards the only way out is a handle target with a field of its tracking field's name. The
  passes give fields to their own targets only and each type is a target once, so that field was
  there before the run; and the target was selected before the run, for no marker is on a
  method that the preparation adds. No fault of one target, no unknown instruction, no second
  clash and no step back of a target's state ever ends a run.
-/

namespace ReleaseWeaver

namespace MarkerTable

theorem mem_insert {table : MarkerTable} {carrier : Carrier} {family : Family}
    {entry : Carrier × Family} : entry ∈ (table.insert carrier family).entries ↔
      entry ∈ table.entries ∨ entry = (carrier, family) ∧ family.attachesTo carrier = true := by
  unfold insert accepts
  split
  · next accepted =>
    rw [Bool.and_eq_true] at accepted
    simp [accepted.1]
  · next refused =>
    refine ⟨.inl, fun either => either.elim id ?_⟩
    rintro ⟨rfl, attaches⟩
    rw [attaches, Bool.true_and, Bool.not_eq_true', Bool.not_eq_false] at refused
    exact List.contains_iff_mem.1 refused

theorem mem_entries_foldl {marks : List (Carrier × Family)} {table : MarkerTable}
    {entry : Carrier × Family} :
    entry ∈ (marks.foldl (fun table mark => table.insert mark.1 mark.2) table).entries ↔
      entry ∈ table.entries ∨ entry ∈ marks ∧ entry.2.attachesTo entry.1 = true := by
  induction marks generalizing table with
  | nil => simp
  | cons mark rest ih =>
    rw [List.foldl_cons, ih, mem_insert, List.mem_cons, or_assoc, or_and_right]
    refine or_congr_right (or_congr_left (and_congr_right ?_))
    rintro rfl
    exact Iff.rfl

/-- The table of a module records the marks of its local types, where they may be attached. -/
theorem mem_collect {m : Module} {names : MarkerNames} {entry : Carrier × Family} :
    entry ∈ (collect m names).entries ↔
      (∃ t ∈ m.types, t.isLocal = true ∧ entry ∈ marksOfType names t) ∧
        entry.2.attachesTo entry.1 = true := by
  have collected : entry ∈ (collect m names).entries ↔ entry ∈ ({} : MarkerTable).entries ∨
      entry ∈ m.localTypes.flatMap (marksOfType names) ∧ entry.2.attachesTo entry.1 = true :=
    mem_entries_foldl
  simp [collected, Module.localTypes, and_assoc]

/-- A marked method is a method of the module. -/
theorem mem_collect_method {m : Module} {names : MarkerNames} {key : MethodKey} {family : Family}
    (marked : (Carrier.method key, family) ∈ (collect m names).entries) :
    ∃ t ∈ m.types, ∃ d, (key, d) ∈ t.keyedMethods := by
  obtain ⟨⟨t, declared, _, mark⟩, _⟩ := mem_collect.1 marked
  simp only [marksOfType, marks, List.mem_append, List.mem_flatMap, List.mem_map,
    List.mem_filterMap, Prod.mk.injEq] at mark
  obtain (⟨_, _, impossible, _⟩ | ⟨⟨key', d⟩, keyed, _, _, same, _⟩) |
    ⟨_, _, _, _, impossible, _⟩ := mark
  · cases impossible
  · cases same
    exact ⟨t, declared, d, keyed⟩
  · cases impossible

theorem hasFamily_iff {table : MarkerTable} {family : Family} :
    table.hasFamily family = true ↔ ∃ carrier, table.contains carrier family = true := by
  simp only [hasFamily, contains, List.any_eq_true, decide_eq_true_eq, List.contains_iff_mem]
  constructor
  · rintro ⟨⟨carrier, _⟩, listed, rfl⟩
    exact ⟨carrier, listed⟩
  · rintro ⟨carrier, listed⟩
    exact ⟨_, listed, rfl⟩

end MarkerTable

/-- Changes that add at most methods select no further handle target. -/
theorem Target.mem_select_of_shapes {m m' : Module} {names : MarkerNames} {target : Target}
    (shapes : m'.shapes = m.shapes)
    (listed : target ∈ Target.select m' (MarkerTable.collect m names) .trackHandles) :
    target ∈ Target.select m (MarkerTable.collect m names) .trackHandles := by
  obtain ⟨t', own, selected⟩ := List.mem_filterMap.1 listed
  obtain ⟨declared, isLocal⟩ := List.mem_filter.1 own
  obtain ⟨t, known, shaped⟩ :=
    Module.findType?_of_shapes shapes.symm (Module.findType?_of_mem declared)
  have listed' : t ∈ m.types := (Module.mem_of_findType? known).1
  have named : t.definitionName = t'.definitionName := (Module.mem_of_findType? known).2
  have isLocal' : t.isLocal = true := by
    have from_shape : t.shape.isLocal = t'.shape.isLocal := by rw [shaped]
    exact from_shape.trans isLocal
  refine List.mem_filterMap.2 ⟨t, List.mem_filter.2 ⟨listed', isLocal'⟩, ?_⟩
  have members : (MarkerTable.collect m names).marksMember .trackHandles t' = true →
      (MarkerTable.collect m names).marksMember .trackHandles t = true := by
    intro marked
    obtain ⟨⟨key, d⟩, keyed', entry⟩ := List.any_eq_true.1 marked
    have owner' := (TypeDef.mem_keyedMethods.1 keyed').1
    have inside : (Carrier.method key, Family.trackHandles) ∈
        (MarkerTable.collect m names).entries := by
      simpa [MarkerTable.contains] using entry
    obtain ⟨u, declared_u, d', keyed⟩ := MarkerTable.mem_collect_method inside
    have owner := (TypeDef.mem_keyedMethods.1 keyed).1
    have same : u = t := by
      have found := Module.findType?_of_mem declared_u
      rw [← owner, owner', known] at found
      exact (Option.some.inj found).symm
    exact List.any_eq_true.2 ⟨(key, d'), same ▸ keyed, entry⟩
  unfold Target.ofType? at selected ⊢
  dsimp only at selected ⊢
  rw [named]
  split at selected
  · next included =>
    rw [if_pos, ← Option.some.inj selected]
    rw [Bool.or_eq_true] at included ⊢
    obtain wide | member := included
    · exact .inl wide
    · exact .inr (members member)
  · cases selected

theorem Target.nodup_select (m : Module) (table : MarkerTable) (family : Family) :
    ((Target.select m table family).map Target.typeName).Nodup := by
  have names : ((m.types.filter TypeDef.isLocal).map TypeDef.definitionName).Nodup :=
    m.names_nodup.sublist (List.filter_sublist.map _)
  refine names.sublist ?_
  have each (types : List TypeDef) : List.Sublist
      ((types.filterMap (Target.ofType? table family)).map Target.typeName)
      (types.map TypeDef.definitionName) := by
    induction types with
    | nil => exact .slnil
    | cons t rest ih =>
      unfold Target.ofType? at ih ⊢
      rw [List.filterMap_cons]
      dsimp only
      split
      · next omitted => exact ih.cons _
      · next target included =>
        split at included
        · cases included
          exact ih.cons_cons _
        · cases included
  exact each _

namespace Weave

/-- The only error of the handle pass is a clash with a field that was there before. -/
theorem TrackPass.eq_clash {c : WeaveContext} {m₀ m m' : Module} {targets : List Target}
    {entries : List TargetReport} {r : Option WeaveError}
    (pass : TrackPass c targets m entries r m') (shapes : m.shapes = m₀.shapes)
    (once : (targets.map Target.typeName).Nodup)
    (fields : ∀ target ∈ targets, m.fieldsOf target.typeName = m₀.fieldsOf target.typeName)
    {e : WeaveError} (failed : r = some e) :
    ∃ target ∈ targets, ∃ t, m₀.findType? target.typeName = some t ∧
      e = .trackingFieldExists t.definitionName ∧
      m₀.declaresField t.definitionName (c.trackingField t).name = true := by
  induction pass with
  | done => cases failed
  | @refused target rest m _ _ _ _ _ _ _ _ ih =>
    have later := ih shapes (List.nodup_cons.1 once).2
      (fun target' listed => fields target' (List.mem_cons_of_mem target listed)) failed
    obtain ⟨target', listed, t, found⟩ := later
    exact ⟨target', List.mem_cons_of_mem target listed, t, found⟩
  | @woven target rest m t plan _ _ _ known _ _ _ ih =>
    have named : t.definitionName = target.typeName := (Module.mem_of_findType? known).2
    obtain ⟨fresh, once'⟩ := List.nodup_cons.1 once
    have later := ih ((Module.shapes_trackTarget c target t plan m).trans shapes) once'
      (fun target' listed => by
        have other : target'.typeName ≠ t.definitionName := by
          intro same
          rw [named] at same
          exact fresh (same ▸ List.mem_map_of_mem listed)
        rw [Module.fieldsOf_trackTarget_of_ne c target t plan m other]
        exact fields target' (List.mem_cons_of_mem target listed)) failed
    obtain ⟨target', listed, t', found⟩ := later
    exact ⟨target', List.mem_cons_of_mem target listed, t', found⟩
  | @clash target rest m t plan known _ declared =>
    cases failed
    have named : t.definitionName = target.typeName := (Module.mem_of_findType? known).2
    obtain ⟨t₀, known₀, shaped⟩ := Module.findType?_of_shapes shapes.symm known
    have name : t₀.name = t.name := by
      have from_shape : t₀.shape.name = t.shape.name := by rw [shaped]
      exact from_shape
    have named₀ : t₀.definitionName = target.typeName := (Module.mem_of_findType? known₀).2
    refine ⟨target, List.mem_cons_self, t₀, known₀, by rw [named, named₀], ?_⟩
    rw [Module.declaresField_eq, named, fields target List.mem_cons_self] at declared
    rw [Module.declaresField_eq, named₀, WeaveContext.trackingField, name]
    exact declared

theorem prepared_kept (c : WeaveContext) (capability : Option TypeRef) (m : Module) :
    (prepared c capability m).shapes = m.shapes ∧
      ∀ name, (prepared c capability m).fieldsOf name = m.fieldsOf name := by
  refine Module.prepareTeardowns_induction (fun m' =>
    m'.shapes = m.shapes ∧ ∀ name, m'.fieldsOf name = m.fieldsOf name) ⟨rfl, fun _ => rfl⟩ ?_
  intro m' t ancestor kept _ _
  obtain ⟨shapes, fields⟩ := kept
  refine ⟨?_, fun name => ?_⟩
  · rw [Module.ensured, Module.shapes_ensureTeardown, shapes]
  · rw [Module.ensured, Module.fieldsOf_ensureTeardown, fields]

end Weave

/-- The errors that a run can end with, and what it leaves behind. -/
theorem Module.weave_error {m : Module} {config : Config} {e : WeaveError}
    (failed : (m.weave config).result = .error e) :
    (∃ missing, e = .binding missing ∧ (m.weave config).module = m ∧
        (m.weave config).log = [{ level := .error, text := e.message }]) ∨
      ∃ target ∈ Target.select m (MarkerTable.collect m config.markers) .trackHandles, ∃ t,
        m.findType? target.typeName = some t ∧ e = .trackingFieldExists t.definitionName ∧
        m.declaresField t.definitionName (trackingFieldName config.fieldPrefix t.name) = true ∧
        ∀ msg ∈ (m.weave config).log, msg.level = .error → msg.text ≠ e.message := by
  obtain ⟨missing, stopped⟩ | ⟨c, capability, _, _, finished⟩ := Weave.weave_cases m config
  · rw [stopped] at failed ⊢
    cases failed
    exact .inl ⟨missing, rfl, rfl, rfl⟩
  · generalize m.weave config = outcome at finished failed ⊢
    cases finished with
    | woven => cases failed
    | clash pass quiet =>
      cases failed
      obtain ⟨shapes, fields⟩ := Weave.prepared_kept
        ⟨config, c, MarkerTable.collect m config.markers⟩ capability m
      obtain ⟨target, listed, t, known, rfl, declared⟩ :=
        pass.eq_clash shapes (Target.nodup_select _ _ _) (fun target _ => fields _) rfl
      refine .inr ⟨target, Target.mem_select_of_shapes shapes listed, t, known, rfl, declared, ?_⟩
      exact fun msg listed error => quiet msg listed error t.definitionName

/-- A handle target that declares a field under the name of its tracking field. -/
def Sample.clashing : Module :=
  match Scenario.singleConstructorSingleSubscribe.run baseModule with
  | .ok _ m | .error _ m => m.modifyType "Sweep.Tests.Models.SingleConstructorSingleSubscribeModel"
      fun t => { t with fields := [{ name := "$SweepTrackerSingleConstructorSingleSubscribeModel",
                                     type := container }] }

theorem Module.weave_error_clashing :
    let outcome := Sample.clashing.weave Config.default
    let e := WeaveError.trackingFieldExists
      "Sweep.Tests.Models.SingleConstructorSingleSubscribeModel"
    (∃ missing, e = .binding missing ∧ outcome.module = Sample.clashing ∧
        outcome.log = [{ level := .error, text := e.message }]) ∨
      ∃ target ∈ Target.select Sample.clashing
          (MarkerTable.collect Sample.clashing Config.default.markers) .trackHandles, ∃ t,
        Sample.clashing.findType? target.typeName = some t ∧
        e = .trackingFieldExists t.definitionName ∧
        Sample.clashing.declaresField t.definitionName
          (trackingFieldName Config.default.fieldPrefix t.name) = true ∧
        ∀ msg ∈ outcome.log, msg.level = .error → msg.text ≠ e.message :=
  Module.weave_error (by decide +kernel)

end ReleaseWeaver
