import ReleaseWeaver.Proofs.Weave.Frame

/-
  A second run over a module that a run has woven. The first run leaves the markers, the targets
  and the collaborators as they were and refuses nobody that it did not refuse before, so the
  second one finds nothing to prepare, refuses the same handle targets again, and comes to the
  first one that was released, which has its tracking field by now. Main statement: it fails there
  and leaves the module as it found it.
-/

namespace ReleaseWeaver

open ReleaseWeaver.Module

/-! ## Grown types -/

/-- What a run makes of a type, as far as markers and messages see it: the methods keep their names
and attributes, and behind them come overrides that nobody has marked. -/
structure TypeDef.Grown (t t' : TypeDef) : Prop where
  shape : t'.shape = t.shape
  methods : ∃ (change : MethodKey → MethodDef → MethodDef) (overrides : List (MethodKey × MethodDef)),
    t'.keyedMethods =
        t.keyedMethods.map (fun method => (method.1, change method.1 method.2)) ++ overrides ∧
      (∀ key d, (change key d).name = d.name ∧ (change key d).attributes = d.attributes ∧
        (change key d).isInstanceWithBody = d.isInstanceWithBody) ∧
      ∀ override ∈ overrides, override.2.attributes = [] ∧
        override.2.isInstanceWithBody = true

namespace TypeDef.Grown

variable {t t' : TypeDef} (grown : t.Grown t')

include grown

theorem definitionName : t'.definitionName = t.definitionName := by
  show t'.shape.definitionName = t.shape.definitionName
  rw [grown.shape]

theorem isLocal : t'.isLocal = t.isLocal := by
  show t'.shape.isLocal = t.shape.isLocal
  rw [grown.shape]

theorem length_methods : t.methods.length ≤ t'.methods.length := by
  obtain ⟨change, overrides, methods, _⟩ := grown.methods
  have lengths := congrArg List.length methods
  simp only [TypeDef.keyedMethods, List.length_append, List.length_map, List.length_zipIdx]
    at lengths
  omega

theorem marksOfType (names : MarkerNames) :
    MarkerTable.marksOfType names t' = MarkerTable.marksOfType names t := by
  obtain ⟨change, overrides, methods, same, unmarked⟩ := grown.methods
  have attributes : t'.attributes = t.attributes := by
    show t'.shape.attributes = t.shape.attributes
    rw [grown.shape]
  have properties : t'.keyedProperties = t.keyedProperties := by
    show t'.shape.keyedProperties = t.shape.keyedProperties
    rw [grown.shape]
  have none : overrides.flatMap (fun method =>
      MarkerTable.marks names (.method method.1) method.2.attributes) = [] := by
    refine List.flatMap_eq_nil_iff.2 fun override listed => ?_
    rw [(unmarked override listed).1]
    rfl
  rw [MarkerTable.marksOfType, MarkerTable.marksOfType, grown.definitionName, attributes, properties,
    methods, List.flatMap_append, none, List.append_nil, List.flatMap_map]
  simp only [(same _ _).2.1]

theorem exclusions (c : WeaveContext) (target : Target) :
    Weave.exclusions c target t' = Weave.exclusions c target t := by
  obtain ⟨change, overrides, methods, same, unmarked⟩ := grown.methods
  have none : overrides.filter (fun override => !override.2.isInstanceWithBody &&
      c.markers.contains (.method override.1) target.family) = [] := by
    refine List.filter_eq_nil_iff.2 fun override listed => ?_
    simp [(unmarked override listed).2]
  have said (key : MethodKey) (d : MethodDef) :
      Weave.excludedMessage t' (change key d) = Weave.excludedMessage t d := by
    rw [Weave.excludedMessage, Weave.excludedMessage, TypeDef.qualifiedName, TypeDef.qualifiedName,
      grown.definitionName, (same key d).1]
  rw [Weave.exclusions, Weave.exclusions, Target.excludedMethods, Target.excludedMethods, methods,
    List.filter_append, none, List.append_nil, List.filter_map, List.map_map]
  simp only [Function.comp_def, (same _ _).2.2, said]

end TypeDef.Grown

/-- A module whose types have grown has the markers that it had. -/
theorem MarkerTable.collect_grown {m m' : Module} (shapes : m'.shapes = m.shapes)
    (grown : ∀ t ∈ m.types, ∃ t', m'.findType? t.definitionName = some t' ∧ t.Grown t')
    (names : MarkerNames) : collect m' names = collect m names := by
  have alone (types : List TypeDef) : (types.filter TypeDef.isLocal).flatMap (marksOfType names) =
      types.flatMap fun t => if t.isLocal then marksOfType names t else [] := by
    induction types with
    | nil => rfl
    | cons t rest ih => cases isLocal : t.isLocal <;> simp [isLocal, ih]
  have through (m : Module) : m.localTypes.flatMap (marksOfType names) =
      (m.types.map TypeDef.definitionName).flatMap fun name =>
        ((m.findType? name).filter TypeDef.isLocal).elim [] (marksOfType names) := by
    rw [Module.localTypes, alone, List.flatMap_map]
    refine List.flatMap_congr fun t listed => ?_
    rw [findType?_of_mem listed, Option.filter_some]
    cases t.isLocal <;> rfl
  have marks : m'.localTypes.flatMap (marksOfType names) =
      m.localTypes.flatMap (marksOfType names) := by
    rw [through, through, names_of_shapes shapes]
    refine List.flatMap_congr fun name listed => ?_
    obtain ⟨t, declared, rfl⟩ := List.mem_map.1 listed
    obtain ⟨t', known', same⟩ := grown t declared
    rw [findType?_of_mem declared, known', Option.filter_some, Option.filter_some, same.isLocal]
    cases t.isLocal
    · rfl
    · exact same.marksOfType names
  rw [collect, collect, marks]

/-- A module whose types have grown has the targets that it had. -/
theorem Target.select_grown {m m' : Module} {names : MarkerNames} (shapes : m'.shapes = m.shapes)
    (grown : ∀ t ∈ m.types, ∃ t', m'.findType? t.definitionName = some t' ∧ t.Grown t')
    (family : Family) : select m' (MarkerTable.collect m names) family =
      select m (MarkerTable.collect m names) family := by
  rw [select_eq, select_eq, names_of_shapes shapes]
  refine List.filterMap_congr fun name listed => ?_
  obtain ⟨t, declared, rfl⟩ := List.mem_map.1 listed
  obtain ⟨t', known', same⟩ := grown t declared
  have members : (MarkerTable.collect m names).marksMember family t' =
      (MarkerTable.collect m names).marksMember family t := by
    cases family with
    | trackHandles =>
      exact MarkerTable.marksMember_collect declared same.definitionName same.length_methods
    | releaseCommands =>
      show (MarkerTable.collect m names).marksMember .releaseCommands t'.shape =
        (MarkerTable.collect m names).marksMember .releaseCommands t.shape
      rw [same.shape]
  rw [target?, target?, findType?_of_mem declared, known', Option.bind_some, Option.bind_some,
    same.isLocal, ofType?, ofType?, same.definitionName, members]

namespace Weave

open Weaving

variable {c : WeaveContext} {m n : Module} {outcome : WeaveOutcome} {name : String} {t : TypeDef}

/-! ## The woven module -/

namespace Completed

variable (completed : Completed c m outcome)

include completed

theorem grown (listed : t ∈ m.types) :
    ∃ t', outcome.module.findType? t.definitionName = some t' ∧ t.Grown t' := by
  have known := findType?_of_mem listed
  obtain ⟨_, given, run, _, _⟩ := preparation_start c m
  obtain ⟨u, knownU, shapeU⟩ := findType?_of_shapes run.shapes known
  obtain ⟨t', known', shape'⟩ := findType?_of_shapes completed.keeps.shapes knownU
  obtain ⟨overrides, methodsU, _, gives⟩ := run.keyedMethods known knownU
  let rewrite (key : MethodKey) (d : MethodDef) : MethodDef := d.rewritten c (m.inserted c key d)
  have methods : t'.keyedMethods =
      u.keyedMethods.map fun method => (method.1, rewrite method.1 method.2) := by
    refine List.ext_getElem? fun i => ?_
    have found := completed.findMethod? ⟨t.definitionName, i⟩
    rw [findMethod?_of_known known', findMethod?_of_known knownU] at found
    rw [TypeDef.getElem?_keyedMethods, List.getElem?_map, TypeDef.getElem?_keyedMethods, found,
      Option.map_map, Option.map_map, (mem_of_findType? known').2, (mem_of_findType? knownU).2]
    rfl
  have unchanged (key : MethodKey) (d : MethodDef) : (rewrite key d).name = d.name ∧
      (rewrite key d).attributes = d.attributes ∧
      (rewrite key d).isInstanceWithBody = d.isInstanceWithBody :=
    ⟨rfl, rfl, by
      simp [rewrite, MethodDef.rewritten, MethodDef.isInstanceWithBody, MethodDef.isStatic,
        MethodDef.hasBody]⟩
  rw [methodsU, List.map_append, List.map_map] at methods
  refine ⟨t', known', shape'.trans shapeU,
    fun key d => rewrite key (d.openedIf (m.opens (given.map Prod.snd) key)), _, methods,
    fun key d => ?_, fun override inside => ?_⟩
  · obtain ⟨named, attributes, instanced⟩ :=
      unchanged key (d.openedIf (m.opens (given.map Prod.snd) key))
    exact ⟨named, attributes, instanced.trans (MethodDef.isInstanceWithBody_openedIf _ d)⟩
  · obtain ⟨before, listed, rfl⟩ := List.mem_map.1 inside
    obtain ⟨_, gives⟩ := gives before listed
    obtain ⟨_, attributes, instanced⟩ := unchanged before.1 before.2
    obtain ⟨own, _, override⟩ := gives.overrideVia
    refine ⟨attributes.trans ?_, instanced.trans gives.isInstanceWithBody⟩
    rw [override]
    rfl

/-- Imported types stay as they are. -/
theorem findType?_imported (known : m.findType? name = some t) (imported : t.isLocal = false) :
    outcome.module.findType? name = some t := by
  have unreleased : (reports c m).releasesAny name = false := by
    rw [Bool.eq_false_iff]
    intro released
    obtain ⟨family, released⟩ := WeaveReport.releasesAny_iff.1 released
    obtain ⟨⟨target, selected, same⟩, _⟩ := releases_iff.1 released
    rw [((Target.mem_select_iff (same ▸ known)).1 selected).1] at imported
    cases imported
  obtain ⟨t', opens, known', shape, fields, methods, closed⟩ :=
    completed.findType?_unreleased known unreleased
  have same : t'.methods = t.methods := by
    rw [methods, ← t.map_snd_keyedMethods]
    refine List.map_congr_left fun (key, d) keyed => ?_
    have owner := (TypeDef.mem_keyedMethods.1 keyed).1.trans (mem_of_findType? known).2
    rw [closed imported key owner]
    rfl
  rw [known', TypeDef.eq_of_shape shape fields same]

theorem resolveSymbol : outcome.module.resolveSymbol = m.resolveSymbol := by
  have references : outcome.module.references = m.references :=
    congrArg (fun header => header.2.1) completed.header
  funext symbol
  simp only [Module.resolveSymbol, requireReference, findReference?, references]
  cases known : m.findType? symbol.name with
  | none => rw [unknown_of_shapes completed.shapes known]
  | some t =>
    cases imported : t.isLocal with
    | false => rw [completed.findType?_imported known imported]
    | true =>
      -- A local type may have changed, but it is not what a symbol stands for.
      obtain ⟨t', known', shape⟩ := findType?_of_shapes completed.shapes known
      have isLocal : t.importedFrom = none := by simpa [TypeDef.isLocal] using imported
      have isLocal' : t'.importedFrom = none := by
        show t'.shape.importedFrom = none
        rw [shape]
        exact isLocal
      simp [known', isLocal, isLocal']

/-- The woven module is bound to the same collaborators and has the same markers. -/
theorem bound : c.Bound outcome.module where
  collaborators := by
    have found := completed.weavable.bound.collaborators
    rw [Collaborators.resolve] at found ⊢
    rwa [completed.resolveSymbol]
  markers := by
    rw [MarkerTable.collect_grown completed.shapes fun t => completed.grown,
      completed.weavable.bound.markers]
  capability := fun marked => by
    have found := completed.weavable.bound.capability marked
    simp only [Collaborators.resolveCapability] at found ⊢
    rwa [completed.resolveSymbol]

theorem select (family : Family) : Target.select outcome.module c.markers family =
    Target.select m c.markers family := by
  rw [completed.weavable.bound.markers]
  exact Target.select_grown completed.shapes (fun t => completed.grown) family

theorem fault? (name : String) : outcome.module.fault? c name = m.fault? c name := by
  rw [← fault?_start c m]
  cases known : (start c m).findType? name with
  | none =>
    rw [Module.fault?, Module.fault?, known, unknown_of_shapes completed.keeps.shapes known]
    rfl
  | some t =>
    obtain ⟨t', known', _⟩ := findType?_of_shapes completed.keeps.shapes known
    rw [Module.fault?, Module.fault?, known, known', Option.bind_some, Option.bind_some,
      completed.keeps.requiredPlan known known']

end Completed

/-- The passes over a woven module start from it as it is. -/
theorem Completed.start_again (completed : Completed c m outcome) :
    start c outcome.module = outcome.module := by
  have settled (family : Family) (target : Target)
      (listed : target ∈ Target.select outcome.module c.markers family) :
      ¬outcome.module.NeedsOverride c.disposal target.typeName := by
    rintro ⟨t, known, disposable, ancestor, planned⟩
    rw [completed.select] at listed
    have required : requiredPlan c t outcome.module = .ok (.synthesize ancestor) := by
      rw [requiredPlan, disposable]
      exact planned
    obtain ⟨key, existing⟩ := (settled_start c m family).of_keeps completed.keeps target listed t _
      known required
    cases existing
  have idle : prepareTeardowns c.disposal (Target.select outcome.module c.markers .trackHandles ++
      Target.select outcome.module c.markers .releaseCommands) outcome.module = _ :=
    prepareTeardowns_idle fun target listed => (List.mem_append.1 listed).elim
      (settled .trackHandles target) (settled .releaseCommands target)
  rw [start, idle]

/-! ## The second run -/

/-- A pass whose first targets are refused comes to a clash with the module as it was. -/
theorem forM_trackHandles_clash (s : Session) (before after : List Target) {target : Target}
    {plan : TeardownPlan}
    (refused : ∀ other ∈ before, ∃ e, s.module.fault? c other.typeName = some e)
    (known : s.module.findType? target.typeName = some t)
    (planned : requiredPlan c t s.module = .ok plan)
    (clash : s.module.declaresField t.definitionName (c.trackingField t).name = true) :
    ∃ s', (before ++ target :: after).forM (weaveTarget (trackHandles c)) s =
        .error (.trackingFieldExists target.typeName) s' ∧ s'.module = s.module ∧
      s'.log.collected .collecting .error = s.log.collected .collecting .error ++
        (before.filterMap fun other => (s.module.fault? c other.typeName).map TargetError.message) ++
        (exclusions c target t).collected .collecting .error := by
  have named : t.definitionName = target.typeName := (mem_of_findType? known).2
  induction before generalizing s with
  | nil =>
    have stop := weaveTarget_clash (trackHandles_clash (s := begun target s) known planned clash)
    rw [named] at stop
    refine ⟨_, bind_error stop, rfl, ?_⟩
    show Log.collected ((s.log ++ [_]) ++ exclusions c target t) _ _ = _
    rw [Log.collected_append, Log.collected_append]
    simp [Log.collected]
  | cons other rest ih =>
    obtain ⟨⟨e, fault⟩, refused⟩ := List.forall_mem_cons.1 refused
    obtain ⟨u, knownU, failed⟩ := Option.bind_eq_some_iff.1 fault
    have refusal : requiredPlan c u s.module = .error e :=
      (fault?_eq_some knownU).1 fault
    obtain ⟨s₁, run, module, _, log⟩ :=
      weaveTarget_refused (trackHandles_refused (s := begun other s) knownU refusal)
    have same : s₁.module = s.module := module
    obtain ⟨s', stop, kept, written⟩ := ih s₁ (by rwa [same]) (by rwa [same])
      (by rwa [same]) (by rwa [same])
    refine ⟨s', (bind_ok run).trans stop, kept.trans same, ?_⟩
    rw [written, same, log, begun, Log.collected_append, Log.collected_append, List.filterMap_cons,
      fault]
    simp [Log.collected]

/-- A handle target that a run released has its tracking field. -/
theorem Completed.clashes_again (completed : Completed c m outcome)
    (released : (reports c m).releases .trackHandles name = true)
    (known : outcome.module.findType? name = some t) :
    outcome.module.declaresField t.definitionName (c.trackingField t).name = true := by
  obtain ⟨u, knownU, shape⟩ := findType?_of_shapes completed.shapes.symm known
  have field : c.trackingField u = c.trackingField t := by
    show c.trackingField u.shape = c.trackingField t.shape
    rw [shape]
  rw [declaresField_eq, (mem_of_findType? known).2, completed.fieldsOf knownU, if_pos released, field]
  simp

/-- A second run over a module comes to the first handle target that the first run released. -/
theorem Completed.stops_again (completed : Completed c m outcome) {before after : List Target}
    {target : Target} (targets : Target.select m c.markers .trackHandles = before ++ target :: after)
    (refused : ∀ other ∈ before, ∃ e, m.fault? c other.typeName = some e)
    (accepted : m.fault? c target.typeName = none)
    (known : m.findType? target.typeName = some t) :
    let again := outcome.module.weave c.config
    again.result = .error (.trackingFieldExists target.typeName) ∧
      again.module = outcome.module ∧
      again.log.collected .collecting .error =
        (before.filterMap fun other => (m.fault? c other.typeName).map TargetError.message) ++
          (exclusions c target t).collected .collecting .error := by
  intro again
  have bound := completed.bound
  have listed : target ∈ Target.select m c.markers .trackHandles := by simp [targets]
  have released : (reports c m).releases .trackHandles target.typeName = true :=
    releases_iff.2 ⟨⟨target, listed, rfl⟩, accepted⟩
  obtain ⟨declared, named⟩ := mem_of_findType? known
  obtain ⟨t', known', grown⟩ := completed.grown declared
  rw [named] at known'
  have accepted' : outcome.module.fault? c target.typeName = none := by
    rw [completed.fault?, accepted]
  obtain ⟨plan, planned⟩ := (fault?_eq_none known').1 accepted'
  obtain ⟨capability, resolved, present, _⟩ | ⟨e, _, marked, missing⟩ :=
    resolveCapability_run c.config c.markers { module := outcome.module }
  case inr =>
    obtain ⟨capability, found⟩ := bound.capability marked
    cases missing.symm.trans found
  have opening : setModule (prepared c capability outcome.module) { module := outcome.module } =
      .ok () { module := outcome.module } := by
    rw [prepared_eq_start present, completed.start_again]
    rfl
  let s : Session := { module := outcome.module, log := [heading .trackHandles
    (Target.select outcome.module c.markers .trackHandles)] }
  obtain ⟨s', stop, kept, written⟩ := forM_trackHandles_clash s before after (fun other among => by
      obtain ⟨e, fault⟩ := refused other among
      exact ⟨e, (completed.fault? _).trans fault⟩)
    known' planned (completed.clashes_again released known')
  have pass : runPass c .trackHandles (trackHandles c) { module := outcome.module } =
      .error (.trackingFieldExists target.typeName) s' := by
    refine (bind_ok rfl).trans ((bind_ok rfl).trans ?_)
    have same : Target.select outcome.module c.markers .trackHandles = before ++ target :: after := by
      rw [completed.select, targets]
    refine Eq.trans ?_ stop
    rw [← same]
    rfl
  have ended : passes c capability outcome.module { module := outcome.module } =
      .error (.trackingFieldExists target.typeName) s' :=
    (bind_ok opening).trans (bind_error pass)
  have run : again = outcomeOf (.error (.trackingFieldExists target.typeName) s') := by
    show outcome.module.weave c.config = _
    rw [weave_eq, execute_bound bound.collaborators, ← bound.markers, bind_ok resolved]
    exact congrArg outcomeOf ended
  rw [run]
  refine ⟨rfl, kept, ?_⟩
  show s'.log.collected .collecting .error = _
  rw [written, grown.exclusions]
  simp only [s, completed.fault?]
  rfl

/-! ## The report of the first run -/

/-- The entries of the handle targets come first. -/
theorem handles_reports (c : WeaveContext) (m : Module) : ∃ commands, (reports c m).targets =
    (Target.select m c.markers .trackHandles).map
      ((c.pass m .trackHandles).report c (start c m)) ++ commands := by
  rw [reports, c.flatMap_families]
  exact ⟨_, rfl⟩

/-- Up to the first handle target that is released all are refused. -/
theorem first_released (released : (reports c m).releases .trackHandles name = true) :
    ∃ before target after, Target.select m c.markers .trackHandles = before ++ target :: after ∧
      (∀ other ∈ before, ∃ e, m.fault? c other.typeName = some e) ∧
      m.fault? c target.typeName = none := by
  obtain ⟨⟨chosen, selected, rfl⟩, free⟩ := releases_iff.1 released
  cases first : (Target.select m c.markers .trackHandles).find? fun target =>
      (m.fault? c target.typeName).isNone with
  | none =>
    have refused := List.find?_eq_none.1 first chosen selected
    rw [free] at refused
    cases refused rfl
  | some target =>
    obtain ⟨accepted, before, after, targets, earlier⟩ := List.find?_eq_some_iff_append.1 first
    refine ⟨before, target, after, targets, fun other among => ?_, by simpa using accepted⟩
    exact Option.isSome_iff_exists.1 (by simpa using earlier other among)

/-- What the first run said about a handle target that it refused. -/
theorem complaints_refused {target : Target} {e : TargetError}
    (listed : target ∈ Target.select m c.markers .trackHandles)
    (fault : m.fault? c target.typeName = some e) :
    let entry := (c.pass m .trackHandles).report c (start c m) target
    entry.isReleased = false ∧ m.complaints c entry = [e.message] := by
  obtain ⟨_, t, known⟩ := of_mem_select listed
  obtain ⟨t', known', _⟩ := findType?_of_shapes (shapes_start c m) known
  dsimp only
  rw [report_start known', fault]
  exact ⟨rfl, rfl⟩

/-- What it said about one that it released. -/
theorem complaints_accepted {target : Target}
    (listed : target ∈ Target.select m c.markers .trackHandles)
    (accepted : m.fault? c target.typeName = none) (known : m.findType? target.typeName = some t) :
    let entry := (c.pass m .trackHandles).report c (start c m) target
    entry.isReleased = true ∧
      m.complaints c entry = (exclusions c target t).collected .collecting .error := by
  obtain ⟨t', known', _⟩ := findType?_of_shapes (shapes_start c m) known
  have same : (c.pass m .trackHandles).report c (start c m) target =
      (c.pass m .trackHandles).entry target t' (start c m) := by
    rw [report_start known', accepted]
  obtain ⟨state, reason⟩ := released_entry c m (start c m) .trackHandles target t'
  rw [← same] at state reason
  refine ⟨decide_eq_true state, ?_⟩
  rw [complaints_released (target_report c m .trackHandles target) reason known,
    (of_mem_select listed).1, (collected_exclusions c target t).1]

end Weave

/-- How a second run over the module `woven`, which a run over `m` with this report has left, fails
at the handle target of `entry`, the first that was released; `before` are the entries ahead. -/
structure Module.RejectedAgain (m : Module) (c : WeaveContext) (report : WeaveReport)
    (woven : Module) (before : List TargetReport) (entry : TargetReport) : Prop where
  reported : before ++ [entry] <+: report.targets
  /-- They are the first handle targets in declaration order. -/
  declared : (before ++ [entry]).map TargetReport.target <+:
    Target.select m c.markers .trackHandles
  refused : ∀ earlier ∈ before, earlier.isReleased = false
  released : entry.family = .trackHandles ∧ entry.isReleased = true
  result : (woven.weave c.config).result = .error (.trackingFieldExists entry.typeName)
  unchanged : (woven.weave c.config).module = woven
  /-- What the first run said about these targets, and no more. -/
  errors : (woven.weave c.config).log.collected .collecting .error =
    (before ++ [entry]).flatMap (m.complaints c)

/-- Weaving a module again fails at the first handle target that the first run released, changes
nothing, and repeats what was said about the handle targets up to that one. -/
theorem Module.weave_again {m : Module} {config : Config} {report : WeaveReport}
    (ended : (m.weave config).result = .ok report)
    (released : ∃ entry ∈ report.targets, entry.family = .trackHandles ∧ entry.isReleased = true) :
    ∃ collaborators before entry, Collaborators.resolve m config = .ok collaborators ∧
      m.RejectedAgain ⟨config, collaborators, MarkerTable.collect m config.markers⟩ report
        (m.weave config).module before entry := by
  obtain ⟨c, rfl, completed, rfl⟩ := Weave.completed_of_ok ended
  have bound := completed.weavable.bound
  let entryOf := (c.pass m .trackHandles).report c (Weave.start c m)
  have about (target : Target) : (entryOf target).target = target :=
    Weave.target_report c m .trackHandles target
  obtain ⟨entry, inside, handles, state⟩ := released
  have counts : (Weave.reports c m).releases .trackHandles entry.typeName = true :=
    List.any_eq_true.2 ⟨entry, inside, by simp [handles, state]⟩
  obtain ⟨before, target, after, targets, earlier, accepted⟩ := Weave.first_released counts
  have here : target ∈ Target.select m c.markers .trackHandles := by simp [targets]
  have ahead (other : Target) (among : other ∈ before) :
      other ∈ Target.select m c.markers .trackHandles := by simp [targets, among]
  obtain ⟨family, t, known⟩ := Weave.of_mem_select here
  obtain ⟨result, unchanged, errors⟩ := completed.stops_again targets earlier accepted known
  obtain ⟨done, said⟩ := Weave.complaints_accepted here accepted known
  obtain ⟨commands, reported⟩ := Weave.handles_reports c m
  refine ⟨c.collaborators, before.map entryOf, entryOf target, bound.collaborators, ?_⟩
  rw [← bound.markers]
  exact
    { reported := ⟨after.map entryOf ++ commands, by
        rw [reported, targets, List.map_append, List.map_cons]
        simp [entryOf]⟩
      declared := ⟨after, by
        rw [targets, List.map_append, List.map_map, List.map_singleton, about]
        simp [Function.comp_def, about]⟩
      refused := by
        intro entry inside
        obtain ⟨other, among, rfl⟩ := List.mem_map.1 inside
        obtain ⟨e, fault⟩ := earlier other among
        exact (Weave.complaints_refused (ahead other among) fault).1
      released := ⟨(congrArg Target.family (about target)).trans family, done⟩
      result := by
        rw [result, ← congrArg Target.typeName (about target)]
        rfl
      unchanged := unchanged
      errors := by
        rw [errors, List.flatMap_append, List.flatMap_map, List.flatMap_singleton, said,
          List.filterMap_eq_flatMap_toList]
        refine congrArg (· ++ _) (List.flatMap_congr fun other among => ?_)
        obtain ⟨e, fault⟩ := earlier other among
        rw [fault, (Weave.complaints_refused (ahead other among) fault).2]
        rfl }

open Sample in
/-- The refused target comes first, and the released one has a marked static method. -/
theorem Module.weave_again_partlyRefused : ∃ report,
    (partlyRefused.weave Config.default).result = .ok report ∧
      (∃ entry ∈ report.targets, entry.family = .trackHandles ∧ entry.isReleased = true) ∧
      ∃ collaborators before entry,
        Collaborators.resolve partlyRefused Config.default = .ok collaborators ∧
        partlyRefused.RejectedAgain ⟨Config.default, collaborators,
            MarkerTable.collect partlyRefused Config.default.markers⟩ report
          (partlyRefused.weave Config.default).module before entry := by
  obtain ⟨report, ended⟩ := weave_of_weavable weavable_partlyRefused
  have released : ∃ entry ∈ report.targets,
      entry.family = .trackHandles ∧ entry.isReleased = true := by
    have some_entry : (partlyRefused.weave Config.default).result.toOption.any (fun report =>
        report.targets.any fun entry => entry.family = .trackHandles && entry.isReleased) = true := by
      decide +kernel
    rw [ended] at some_entry
    simpa [Except.toOption] using some_entry
  exact ⟨report, ended, released, weave_again ended released⟩

end ReleaseWeaver
