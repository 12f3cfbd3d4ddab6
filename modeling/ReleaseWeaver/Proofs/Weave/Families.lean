import ReleaseWeaver.Proofs.Metadata.Attributes
import ReleaseWeaver.Proofs.Weave.Final

/-
  The two families side by side. A target of one family may get an override that a target of the
  other inherits, and both may be woven into one teardown. Still the entry of a target, but for the
  registrations, can be told from the module before the run and the markers of its own family: the
  overrides add no constructor and no property, and they refuse nobody. Main statement: a run that
  comes to its end does so without the markers of the other family as well, with the same entries.
-/

namespace ReleaseWeaver

open ReleaseWeaver.Module

/-- The module without the markers of a family. -/
def Module.withoutMarkers (m : Module) (names : MarkerNames) (family : Family) : Module :=
  m.mapAttributes fun attributes => attributes.filter fun a => names.family? a ≠ some family

/-- The getters of the commands that a target has in scope are methods of the module. -/
def Target.GettersDeclared (target : Target) (c : WeaveContext) (m : Module) (t : TypeDef) : Prop :=
  ∀ property ∈ target.properties c.markers t,
    m.isAssignable property.2.type (c.capability m) = true →
    m.isAssignable property.2.type c.collaborators.contract = true →
      ∀ key ∈ property.2.getter, (m.findMethod? key).isSome = true

/-- The command pass calls no getter that is not there. -/
def Module.GettersDeclared (m : Module) (c : WeaveContext) : Prop :=
  ∀ target ∈ Target.select m c.markers .releaseCommands, (m.fault? c target.typeName).isNone = true →
    ∀ t ∈ m.findType? target.typeName, target.GettersDeclared c m t

instance (target : Target) (c : WeaveContext) (m : Module) (t : TypeDef) :
    Decidable (target.GettersDeclared c m t) := by
  unfold Target.GettersDeclared
  infer_instance

instance (m : Module) (c : WeaveContext) : Decidable (m.GettersDeclared c) := by
  unfold Module.GettersDeclared
  infer_instance

/-! ## Markers -/

namespace MarkerTable

variable {m : Module} {names : MarkerNames} {family other : Family} {carrier : Carrier}

theorem marks_filter (names : MarkerNames) (family : Family) (carrier : Carrier)
    (attributes : List TypeRef) :
    marks names carrier (attributes.filter fun a => names.family? a ≠ some family) =
      (marks names carrier attributes).filter fun mark => mark.2 ≠ family := by
  induction attributes with
  | nil => rfl
  | cons a rest ih =>
    unfold marks at ih ⊢
    cases named : names.family? a with
    | none => simpa [named] using ih
    | some f => by_cases same : f = family <;> simpa [named, same] using ih

theorem marksOfType_withoutMarkers (names : MarkerNames) (family : Family) (t : TypeDef) :
    marksOfType names (t.mapAttributes fun attributes =>
        attributes.filter fun a => names.family? a ≠ some family) =
      (marksOfType names t).filter fun mark => mark.2 ≠ family := by
  simp only [marksOfType, TypeDef.keyedMethods_mapAttributes, TypeDef.keyedProperties_mapAttributes,
    List.flatMap_map, List.filter_append, List.filter_flatMap, ← marks_filter]
  rfl

/-- The other family has the markers that it had. -/
theorem contains_withoutMarkers :
    (collect (m.withoutMarkers names family) names).contains carrier other =
      ((collect m names).contains carrier other && decide (other ≠ family)) := by
  rw [contains, contains, Bool.eq_iff_iff, Bool.and_eq_true, List.contains_iff_mem,
    List.contains_iff_mem, mem_collect, mem_collect, decide_eq_true_iff]
  simp only [withoutMarkers, mapAttributes, List.mem_map, exists_exists_and_eq_and,
    marksOfType_withoutMarkers, List.mem_filter, decide_eq_true_eq]
  constructor
  · rintro ⟨⟨t, listed, isLocal, marked, apart⟩, attaches⟩
    exact ⟨⟨⟨t, listed, isLocal, marked⟩, attaches⟩, apart⟩
  · rintro ⟨⟨⟨t, listed, isLocal, marked⟩, attaches⟩, apart⟩
    exact ⟨⟨t, listed, isLocal, marked, apart⟩, attaches⟩

end MarkerTable

/-- A context that has the markers of a family which another one has. -/
structure WeaveContext.Shares (c c' : WeaveContext) (family : Family) : Prop where
  config : c'.config = c.config
  collaborators : c'.collaborators = c.collaborators
  contains : ∀ carrier, c'.markers.contains carrier family = c.markers.contains carrier family

namespace WeaveContext.Shares

variable {c c' : WeaveContext} {family : Family} (shares : c.Shares c' family)

include shares

theorem disposal : c'.disposal = c.disposal := by
  rw [WeaveContext.disposal, WeaveContext.disposal, shares.config, shares.collaborators]

theorem fault? (m : Module) : m.fault? c' = m.fault? c := by
  funext name
  simp only [Module.fault?, Weave.requiredPlan, shares.disposal]

theorem clashes (m : Module) : m.clashes c' = m.clashes c := by
  funext name
  simp only [Module.clashes, WeaveContext.trackingField, shares.config, shares.collaborators]

theorem capability (m : Module) : c'.capability m = c.capability m := by
  rw [WeaveContext.capability, WeaveContext.capability, shares.config]

theorem select (m : Module) : Target.select m c'.markers family =
    Target.select m c.markers family := by
  have members : c'.markers.marksMember family = c.markers.marksMember family := by
    funext t
    cases family <;> simp only [MarkerTable.marksMember, shares.contains]
  have chosen : Target.ofType? c'.markers family = Target.ofType? c.markers family := by
    funext t
    rw [Target.ofType?, Target.ofType?, members, shares.contains]
  rw [Target.select, Target.select, chosen]

theorem properties {target : Target} (about : target.family = family) :
    target.properties c'.markers = target.properties c.markers := by
  subst about
  funext t
  simp only [Target.properties, shares.contains]

end WeaveContext.Shares

/-! ## Entries -/

/-- An entry without its registrations. -/
def TargetReport.unregistered (entry : TargetReport) : TargetReport :=
  { entry with registrations := 0 }

/-- The entries of a family. -/
def WeaveReport.entriesOf (r : WeaveReport) (family : Family) : List TargetReport :=
  r.targets.filter fun entry => entry.family = family

/-- The entry of a target but for its registrations, told from the module before the run. -/
def Target.foretold (target : Target) (c : WeaveContext) (m : Module) : TargetReport :=
  match m.findType? target.typeName, m.fault? c target.typeName with
  | none, _ => target.entry
  | some _, some e => target.refusal e
  | some t, none => match target.family with
    | .trackHandles =>
      { target.entry with
        state := .released
        constructors := t.methods.countP MethodDef.takesPrologue }
    | .releaseCommands =>
      target.releasedEntry (Weave.releasableGetters c (c.capability m) m target t)

namespace Target

variable {target : Target} {c c' : WeaveContext} {m : Module} {t : TypeDef}
  {f : List TypeRef → List TypeRef}

theorem capability_mapAttributes (shares : c.Shares c' target.family) (m : Module) :
    c'.capability (m.mapAttributes f) = c.capability m := by
  rw [shares.capability, WeaveContext.capability, WeaveContext.capability,
    Collaborators.resolveCapability_mapAttributes]

theorem properties_mapAttributes (shares : c.Shares c' target.family) (t : TypeDef) :
    target.properties c'.markers (t.mapAttributes f) = (target.properties c.markers t).map
      fun property => (property.1, property.2.mapAttributes f) := by
  rw [shares.properties rfl, Target.properties, TypeDef.keyedProperties_mapAttributes,
    List.filter_map]
  rfl

theorem releasableGetters_mapAttributes (shares : c.Shares c' target.family) (m : Module)
    (t : TypeDef) : Weave.releasableGetters c' (c'.capability (m.mapAttributes f))
        (m.mapAttributes f) target (t.mapAttributes f) =
      Weave.releasableGetters c (c.capability m) m target t := by
  have refs : (m.mapAttributes f).methodRef? = m.methodRef? := by
    funext key
    rw [Module.methodRef?, Module.methodRef?, findType?_mapAttributes]
    cases m.findType? key.owner with
    | none => rfl
    | some t =>
      simp only [Option.map_some, Option.bind_some, TypeDef.mapAttributes, List.getElem?_map,
        Option.map_map]
      rfl
  rw [Weave.releasableGetters, Weave.releasableGetters, properties_mapAttributes shares,
    List.filterMap_map, capability_mapAttributes shares, isAssignable_mapAttributes, refs,
    shares.collaborators]
  rfl

theorem GettersDeclared.mapAttributes (declared : target.GettersDeclared c m t)
    (shares : c.Shares c' target.family) :
    target.GettersDeclared c' (m.mapAttributes f) (t.mapAttributes f) := by
  intro property' listed' capable disposable key getter
  rw [properties_mapAttributes shares] at listed'
  obtain ⟨property, listed, rfl⟩ := List.mem_map.1 listed'
  rw [isAssignable_mapAttributes, capability_mapAttributes shares] at capable
  rw [isAssignable_mapAttributes, shares.collaborators] at disposable
  rw [findMethod?_mapAttributes, Option.isSome_map]
  exact declared property listed capable disposable key getter

/-- The entry depends on the markers of the family of the target, and on no other attribute. -/
theorem foretold_mapAttributes (shares : c.Shares c' target.family) (m : Module) :
    target.foretold c' (m.mapAttributes f) = target.foretold c m := by
  rw [foretold, foretold, fault?_mapAttributes, shares.fault?, findType?_mapAttributes]
  cases m.findType? target.typeName with
  | none => rfl
  | some t =>
    cases m.fault? c target.typeName with
    | some e => rfl
    | none =>
      dsimp only [Option.map_some]
      rw [releasableGetters_mapAttributes shares]
      have count : (t.mapAttributes f).methods.countP MethodDef.takesPrologue =
          t.methods.countP MethodDef.takesPrologue := by
        rw [TypeDef.mapAttributes, List.countP_map]
        rfl
      rw [count]

end Target

namespace Weave

variable {c : WeaveContext} {m : Module} {target : Target} {t t' : TypeDef}

/-- The preparation adds no constructor. -/
theorem constructors_start (known : m.findType? target.typeName = some t)
    (known' : (start c m).findType? target.typeName = some t') :
    t'.methods.countP MethodDef.takesPrologue = t.methods.countP MethodDef.takesPrologue := by
  obtain ⟨_, given, run, _, _⟩ := preparation_start c m
  obtain ⟨overrides, methods, _, gives⟩ := run.keyedMethods known known'
  have none : overrides.countP (MethodDef.takesPrologue ∘ Prod.snd) = 0 := by
    refine List.countP_eq_zero.2 fun override listed => ?_
    obtain ⟨_, gives⟩ := gives override listed
    obtain ⟨own, teardown, same⟩ := gives.overrideVia
    simp only [Disposal.isTeardown, Bool.and_eq_true, Bool.not_eq_true'] at teardown
    have ordinary := teardown.1.2
    simp only [MethodDef.isConstructor] at ordinary
    simp [same, MethodDef.takesPrologue, MethodDef.overrideVia, overridingTeardown,
      MethodDef.isConstructor, ordinary]
  rw [← t'.map_snd_keyedMethods, ← t.map_snd_keyedMethods, List.countP_map, List.countP_map, methods,
    List.countP_append, none, Nat.add_zero, List.countP_map]
  exact List.countP_congr fun method _ => by simp

/-- The preparation adds no property, and a getter that was there is found there. -/
theorem length_releasableGetters_start (declared : target.GettersDeclared c m t)
    (known : m.findType? target.typeName = some t)
    (known' : (start c m).findType? target.typeName = some t') :
    (releasableGetters c (c.capability m) (start c m) target t').length =
      (releasableGetters c (c.capability m) m target t).length := by
  have shapes := shapes_start c m
  have properties : target.properties c.markers t' = target.properties c.markers t := by
    show target.properties c.markers t'.shape = target.properties c.markers t.shape
    rw [shape_of_known shapes known known']
  have assignable : (start c m).isAssignable = m.isAssignable := by
    funext ref other
    exact reaches_congr (resolve?_of_shapes shapes) other [] [ref]
  have isSome_methodRef? (m : Module) (key : MethodKey) :
      (m.methodRef? key).isSome = (m.findMethod? key).isSome := by
    rw [methodRef?, findMethod?]
    cases m.findType? key.owner <;> simp
  have found (p : PropertyDef) (there : ∀ key ∈ p.getter, (m.findMethod? key).isSome = true) :
      (p.getter.bind (start c m).methodRef?).isSome = (p.getter.bind m.methodRef?).isSome := by
    cases getter : p.getter with
    | none => rfl
    | some key =>
      obtain ⟨_, given, run, _, _⟩ := preparation_start c m
      obtain ⟨own, there'⟩ := Option.isSome_iff_exists.1 (there key getter)
      rw [Option.bind_some, Option.bind_some, isSome_methodRef?, isSome_methodRef?,
        there key getter, run.findMethod?_old there', Option.isSome_some]
  rw [releasableGetters, releasableGetters, properties, assignable, List.length_filterMap_eq_countP,
    List.length_filterMap_eq_countP]
  refine List.countP_congr fun property listed => ?_
  dsimp only
  split
  · next releasable =>
    obtain ⟨capable, disposable⟩ := Bool.and_eq_true_iff.1 releasable
    rw [found property.2 (declared property listed capable disposable)]
  · rfl

theorem foretold_handles (listed : target ∈ Target.select m c.markers .trackHandles) :
    ((c.pass m .trackHandles).report c (start c m) target).unregistered = target.foretold c m := by
  obtain ⟨family, t, known⟩ := of_mem_select listed
  obtain ⟨t', known', _⟩ := findType?_of_shapes (shapes_start c m) known
  rw [report_start known', Target.foretold, known]
  cases m.fault? c target.typeName with
  | some e => rfl
  | none =>
    simp only [family, ← constructors_start known known']
    simp only [WeaveContext.pass, handlePass, Target.trackedEntry, known', TargetReport.unregistered,
      Option.map_some, Option.getD_some]
    rfl

theorem foretold_commands (declared : m.GettersDeclared c)
    (listed : target ∈ Target.select m c.markers .releaseCommands) :
    (c.pass m .releaseCommands).report c (start c m) target = target.foretold c m := by
  obtain ⟨family, t, known⟩ := of_mem_select listed
  obtain ⟨t', known', _⟩ := findType?_of_shapes (shapes_start c m) known
  rw [report_start known', Target.foretold, known]
  cases fault : m.fault? c target.typeName with
  | some e => rfl
  | none =>
    have own := declared target listed (by rw [fault, Option.isNone_none]) t known
    simp only [family, WeaveContext.pass, commandPass, Target.releasedEntry,
      length_releasableGetters_start own known known']

end Weave

/-! ## Both runs -/

/-- The context of a run over the module without the markers of a family. -/
def WeaveContext.withoutMarkers (c : WeaveContext) (m : Module) (removed : Family) :
    WeaveContext :=
  { c with
    markers := MarkerTable.collect (m.withoutMarkers c.config.markers removed) c.config.markers }

namespace Weave

variable {c : WeaveContext} {m : Module} {family removed : Family}

/-- Without the markers of one family the other finds what it found. -/
theorem shares_withoutMarkers (bound : c.Bound m) (apart : family ≠ removed) :
    c.Shares (c.withoutMarkers m removed) family where
  config := rfl
  collaborators := rfl
  contains := fun carrier => by
    rw [WeaveContext.withoutMarkers, MarkerTable.contains_withoutMarkers, decide_eq_true apart,
      Bool.and_true, bound.markers]

/-- A run over the module without the markers of a family meets with nothing new. -/
theorem Weavable.withoutMarkers (weavable : Weavable c m) (removed : Family) :
    Weavable (c.withoutMarkers m removed) (m.withoutMarkers c.config.markers removed) where
  bound :=
    { collaborators := by
        rw [Module.withoutMarkers, Collaborators.resolve_mapAttributes]
        exact weavable.bound.collaborators
      markers := rfl
      capability := by
        intro marked
        rw [Module.withoutMarkers, Collaborators.resolveCapability_mapAttributes]
        refine weavable.bound.capability ?_
        rw [MarkerTable.hasFamily_iff] at marked ⊢
        obtain ⟨carrier, marked⟩ := marked
        rw [WeaveContext.withoutMarkers, MarkerTable.contains_withoutMarkers, Bool.and_eq_true]
          at marked
        exact ⟨carrier, weavable.bound.markers ▸ marked.1⟩ }
  free := by
    intro target listed accepted
    have apart : Family.trackHandles ≠ removed := by
      rintro rfl
      rw [select_eq_nil] at listed
      · cases listed
      · rw [Bool.eq_false_iff, Ne, MarkerTable.hasFamily_iff]
        rintro ⟨carrier, marked⟩
        rw [WeaveContext.withoutMarkers, MarkerTable.contains_withoutMarkers] at marked
        simp at marked
    have shares := shares_withoutMarkers weavable.bound apart
    rw [Module.withoutMarkers, select_mapAttributes, shares.select] at listed
    rw [Module.withoutMarkers, fault?_mapAttributes, shares.fault?] at accepted
    rw [Module.withoutMarkers, clashes_mapAttributes, shares.clashes]
    exact weavable.free target listed accepted

/-- The entries of a family are those of its targets. -/
theorem entriesOf_reports (c : WeaveContext) (m : Module) (family : Family) :
    (reports c m).entriesOf family =
      (Target.select m c.markers family).map ((c.pass m family).report c (start c m)) := by
  by_cases listed : family ∈ c.families
  · exact filter_reports listed
  · have none : Target.select m c.markers family = [] :=
      List.eq_nil_iff_forall_not_mem.2 fun target selected => listed (mem_families selected)
    rw [none, List.map_nil]
    refine List.filter_eq_nil_iff.2 fun entry inside same => ?_
    obtain ⟨f, among, target, selected, rfl⟩ := mem_reports inside
    have about := congrArg Target.family (target_report c m f target)
    have sort : f = family :=
      (about.trans (of_mem_select selected).1).symm.trans (of_decide_eq_true same)
    exact listed (sort ▸ among)

theorem entriesOf_handles (c : WeaveContext) (m : Module) :
    ((reports c m).entriesOf .trackHandles).map TargetReport.unregistered =
      (Target.select m c.markers .trackHandles).map fun target => target.foretold c m := by
  rw [entriesOf_reports, List.map_map]
  exact List.map_congr_left fun target listed => foretold_handles listed

theorem entriesOf_commands (declared : m.GettersDeclared c) :
    (reports c m).entriesOf .releaseCommands =
      (Target.select m c.markers .releaseCommands).map fun target => target.foretold c m := by
  rw [entriesOf_reports]
  exact List.map_congr_left fun target listed => foretold_commands declared listed

theorem select_withoutMarkers (bound : c.Bound m) (apart : family ≠ removed) :
    Target.select (m.withoutMarkers c.config.markers removed) (c.withoutMarkers m removed).markers
      family = Target.select m c.markers family := by
  rw [← (shares_withoutMarkers bound apart).select]
  exact select_mapAttributes m _ family

/-- The targets of a family, and what is foretold of them, are the same without the markers of the
other. -/
theorem foretold_withoutMarkers (bound : c.Bound m) (apart : family ≠ removed) :
    let c' := c.withoutMarkers m removed
    let m' := m.withoutMarkers c.config.markers removed
    (Target.select m' c'.markers family).map (fun target => target.foretold c' m') =
      (Target.select m c.markers family).map fun target => target.foretold c m := by
  intro c' m'
  rw [select_withoutMarkers bound apart]
  refine List.map_congr_left fun target listed => ?_
  obtain ⟨rfl, _⟩ := of_mem_select listed
  exact Target.foretold_mapAttributes (shares_withoutMarkers bound apart) m

theorem gettersDeclared_withoutMarkers (declared : m.GettersDeclared c) (bound : c.Bound m)
    (apart : .releaseCommands ≠ removed) :
    (m.withoutMarkers c.config.markers removed).GettersDeclared (c.withoutMarkers m removed) := by
  have shares := shares_withoutMarkers bound apart
  intro target listed accepted t' known'
  rw [select_withoutMarkers bound apart] at listed
  rw [Module.withoutMarkers, fault?_mapAttributes, shares.fault?] at accepted
  rw [Module.withoutMarkers, findType?_mapAttributes] at known'
  obtain ⟨t, known, rfl⟩ := Option.map_eq_some_iff.1 known'
  have about := (of_mem_select listed).1
  exact (declared target listed accepted t known).mapAttributes (about ▸ shares)

end Weave

/-- What either family makes of its targets is the same without the markers of the other. -/
theorem Module.weave_families {m : Module} {config : Config} {report : WeaveReport}
    (ended : (m.weave config).result = .ok report) :
    (∃ report', ((m.withoutMarkers config.markers .releaseCommands).weave config).result =
        .ok report' ∧
      (report'.entriesOf .trackHandles).map TargetReport.unregistered =
        (report.entriesOf .trackHandles).map TargetReport.unregistered) ∧
    ∃ collaborators, Collaborators.resolve m config = .ok collaborators ∧
      (m.GettersDeclared ⟨config, collaborators, MarkerTable.collect m config.markers⟩ →
        ∃ report', ((m.withoutMarkers config.markers .trackHandles).weave config).result =
            .ok report' ∧
          report'.entriesOf .releaseCommands = report.entriesOf .releaseCommands) := by
  obtain ⟨c, rfl, completed, rfl⟩ := Weave.completed_of_ok ended
  have weavable := completed.weavable
  have bound := weavable.bound
  have each (removed : Family) := (weavable.withoutMarkers removed).completed.result
  refine ⟨⟨_, each .releaseCommands, ?_⟩, c.collaborators, bound.collaborators, ?_⟩
  · rw [Weave.entriesOf_handles, Weave.entriesOf_handles]
    exact Weave.foretold_withoutMarkers bound (by decide)
  · rw [← bound.markers]
    intro declared
    refine ⟨_, each .trackHandles, ?_⟩
    rw [Weave.entriesOf_commands declared, Weave.entriesOf_commands
      (Weave.gettersDeclared_withoutMarkers declared bound (by decide))]
    exact Weave.foretold_withoutMarkers bound (by decide)

/-- A command target, which gets an override, and a handle target below it. -/
def Sample.trackedBelowCommands : Module :=
  match Scenario.commandBaseWithTrackedSubtype.run baseModule with
  | .ok _ m | .error _ m => m

open Sample in
theorem Module.weave_families_trackedBelowCommands :
    ∃ report, (trackedBelowCommands.weave Config.default).result = .ok report ∧
      (∃ report', ((trackedBelowCommands.withoutMarkers Config.default.markers
            .releaseCommands).weave Config.default).result = .ok report' ∧
        (report'.entriesOf .trackHandles).map TargetReport.unregistered =
          (report.entriesOf .trackHandles).map TargetReport.unregistered) ∧
      ∃ collaborators, Collaborators.resolve trackedBelowCommands Config.default =
          .ok collaborators ∧
        trackedBelowCommands.GettersDeclared ⟨Config.default, collaborators,
          MarkerTable.collect trackedBelowCommands Config.default.markers⟩ ∧
        ∃ report', ((trackedBelowCommands.withoutMarkers Config.default.markers
              .trackHandles).weave Config.default).result = .ok report' ∧
          report'.entriesOf .releaseCommands = report.entriesOf .releaseCommands := by
  obtain ⟨ends, getters⟩ : trackedBelowCommands.weavable Config.default = true ∧
      ∀ collaborators ∈ (Collaborators.resolve trackedBelowCommands Config.default).toOption,
        trackedBelowCommands.GettersDeclared ⟨Config.default, collaborators,
          MarkerTable.collect trackedBelowCommands Config.default.markers⟩ := by decide +kernel
  obtain ⟨report, ended⟩ := weave_of_weavable ends
  obtain ⟨handles, collaborators, resolved, commands⟩ := weave_families ended
  have declared := getters collaborators (by rw [resolved]; rfl)
  exact ⟨report, ended, handles, collaborators, resolved, declared, commands declared⟩

end ReleaseWeaver
