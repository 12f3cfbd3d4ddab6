import ReleaseWeaver.Proofs.Weave.Rounds

/-
  A run that comes to its end, told from the module that it starts from. The targets of a family
  are those of the original module, the passes are two rounds of them, and the report and the
  messages follow. Main statement: a run comes to its end exactly if its collaborators are there
  and no handle target has a field in the way of its tracking field.
-/

namespace ReleaseWeaver

/-! ## Targets by name -/

/-- The target that the type of a name is. -/
def Module.target? (m : Module) (table : MarkerTable) (family : Family) (name : String) :
    Option Target :=
  (m.findType? name).bind fun t => if t.isLocal then Target.ofType? table family t else none

theorem Target.select_eq (m : Module) (table : MarkerTable) (family : Family) :
    select m table family =
      (m.types.map TypeDef.definitionName).filterMap (m.target? table family) := by
  rw [select, Module.localTypes, List.filterMap_filter, List.filterMap_map]
  refine List.filterMap_congr fun t listed => ?_
  rw [Function.comp_apply, Module.target?, Module.findType?_of_mem listed, Option.bind_some]

theorem names_of_shapes {m m' : Module} (shapes : m'.shapes = m.shapes) :
    m'.types.map TypeDef.definitionName = m.types.map TypeDef.definitionName := by
  have names := congrArg (List.map TypeDef.definitionName) shapes
  rw [Module.shapes, Module.shapes, List.map_map, List.map_map] at names
  exact names

/-- The handle targets of a type with methods behind those that it had. -/
theorem MarkerTable.marksMember_collect {m : Module} {names : MarkerNames} {t t' : TypeDef}
    (listed : t ∈ m.types) (named : t'.definitionName = t.definitionName)
    (more : t.methods.length ≤ t'.methods.length) :
    (collect m names).marksMember .trackHandles t' =
      (collect m names).marksMember .trackHandles t := by
  rw [Bool.eq_iff_iff]
  constructor
  · intro marked
    obtain ⟨⟨key, _⟩, keyed, entry⟩ := List.any_eq_true.1 marked
    have owner := (TypeDef.mem_keyedMethods.1 keyed).1
    obtain ⟨u, declared, d, keyed'⟩ :=
      mem_collect_method (List.contains_iff_mem.1 entry)
    have same : u = t := by
      have found := Module.findType?_of_mem declared
      rw [← (TypeDef.mem_keyedMethods.1 keyed').1, owner, named,
        Module.findType?_of_mem listed] at found
      exact (Option.some.inj found).symm
    exact List.any_eq_true.2 ⟨(key, d), same ▸ keyed', entry⟩
  · intro marked
    obtain ⟨⟨key, d⟩, keyed, entry⟩ := List.any_eq_true.1 marked
    obtain ⟨owner, there⟩ := TypeDef.mem_keyedMethods.1 keyed
    have inside : key.index < t'.methods.length :=
      Nat.lt_of_lt_of_le (List.getElem?_eq_some_iff.1 there).1 more
    refine List.any_eq_true.2 ⟨(key, t'.methods[key.index]), ?_, entry⟩
    exact TypeDef.mem_keyedMethods.2
      ⟨owner.trans named.symm, List.getElem?_eq_some_iff.2 ⟨inside, rfl⟩⟩

/-! ## Faults -/

/-- Why a target of that name is refused, if it is: its type is not disposable, or it can have no
teardown. -/
def Module.fault? (m : Module) (c : WeaveContext) (name : String) : Option TargetError :=
  (m.findType? name).bind fun t => match Weave.requiredPlan c t m with
    | .error e => some e
    | .ok _ => none

theorem Module.fault?_eq_some {m : Module} {c : WeaveContext} {name : String} {t : TypeDef}
    {e : TargetError} (known : m.findType? name = some t) :
    m.fault? c name = some e ↔ Weave.requiredPlan c t m = .error e := by
  rw [fault?, known, Option.bind_some]
  cases Weave.requiredPlan c t m <;> simp

theorem Module.fault?_eq_none {m : Module} {c : WeaveContext} {name : String} {t : TypeDef}
    (known : m.findType? name = some t) :
    m.fault? c name = none ↔ ∃ plan, Weave.requiredPlan c t m = .ok plan := by
  rw [fault?, known, Option.bind_some]
  cases Weave.requiredPlan c t m <;> simp

/-- An override is needed by a type that is not refused and declares no teardown. -/
theorem Module.needsOverride_iff_fault {m : Module} {c : WeaveContext} {name : String} {t : TypeDef}
    (known : m.findType? name = some t) : m.NeedsOverride c.disposal name ↔
      m.fault? c name = none ∧ m.declared? c.disposal name = none := by
  rw [needsOverride_iff known, fault?_eq_none known, Weave.requiredPlan]
  by_cases disposable : m.isDisposable c.disposal t = true
  · simp only [disposable, Bool.not_true, Bool.false_eq_true, if_false, true_and]
    cases m.planTeardown c.disposal t <;> simp
  · simp [disposable]

/-- Whether the type of a name has a field of its tracking field's name. -/
def Module.clashes (m : Module) (c : WeaveContext) (name : String) : Bool :=
  (m.findType? name).any fun t => m.declaresField name (c.trackingField t).name

namespace Weave

open ReleaseWeaver.Module Weaving

variable {c : WeaveContext} {m m' : Module}

/-- The preparation ahead of the passes. -/
theorem preparation_start (c : WeaveContext) (m : Module) : ∃ names given,
    Preparation c.disposal names m given (start c m) ∧
      (names.Pairwise fun a b => m.depth a ≤ m.depth b) ∧
      ∀ name, name ∈ names ↔ (∃ t, m.findType? name = some t) ∧
        ∃ family, ∃ target ∈ Target.select m c.markers family, target.typeName = name := by
  obtain ⟨given, run⟩ := preparation_run c.disposal
    (Target.select m c.markers .trackHandles ++ Target.select m c.markers .releaseCommands) m
  refine ⟨_, given, run, sorted_preparationOrder m _, fun name => ?_⟩
  rw [mem_preparationOrder]
  refine and_congr_right fun _ => ⟨?_, ?_⟩
  · rintro ⟨target, listed, same⟩
    obtain handle | command := List.mem_append.1 listed
    · exact ⟨_, target, handle, same⟩
    · exact ⟨_, target, command, same⟩
  · rintro ⟨family, target, listed, same⟩
    refine ⟨target, List.mem_append.2 ?_, same⟩
    cases family with
    | trackHandles => exact .inl listed
    | releaseCommands => exact .inr listed

/-- The targets are those of the original module. -/
theorem select_start (collected : c.markers = MarkerTable.collect m c.config.markers)
    (family : Family) :
    Target.select (start c m) c.markers family = Target.select m c.markers family := by
  obtain ⟨names, given, run, _, _⟩ := preparation_start c m
  rw [Target.select_eq, Target.select_eq, names_of_shapes run.shapes]
  refine List.filterMap_congr fun name listed => ?_
  obtain ⟨t, declared, rfl⟩ := List.mem_map.1 listed
  have known := findType?_of_mem declared
  obtain ⟨t', known', same⟩ := findType?_of_shapes run.shapes known
  have named : t'.definitionName = t.definitionName := (mem_of_findType? known').2
  have more : t.methods.length ≤ t'.methods.length := by
    refine Nat.le_of_not_lt fun fewer => ?_
    have before : m.findMethod? ⟨t.definitionName, t'.methods.length⟩ =
        some t.methods[t'.methods.length] := by
      rw [findMethod?_of_known known, List.getElem?_eq_getElem fewer]
    have after := run.findMethod?_old before
    rw [findMethod?_of_known known', List.getElem?_eq_none (Nat.le_refl _)] at after
    cases after
  have isLocal : t'.isLocal = t.isLocal := by
    show t'.shape.isLocal = t.shape.isLocal
    rw [same]
  have chosen : Target.ofType? c.markers family t' = Target.ofType? c.markers family t := by
    cases family with
    | trackHandles =>
      rw [collected, Target.ofType?, Target.ofType?, named,
        MarkerTable.marksMember_collect declared named more]
    | releaseCommands =>
      show Target.ofType? c.markers .releaseCommands t'.shape =
        Target.ofType? c.markers .releaseCommands t.shape
      rw [same]
  rw [target?, target?, known, known', Option.bind_some, Option.bind_some, isLocal, chosen]

theorem settled_start (c : WeaveContext) (m : Module) (family : Family) :
    Settled c (Target.select m c.markers family) (start c m) := by
  intro target listed
  refine settled_prepared c (some default) m target (List.mem_append.2 ?_)
  cases family with
  | trackHandles => exact .inl listed
  | releaseCommands => exact .inr listed

theorem shapes_start (c : WeaveContext) (m : Module) : (start c m).shapes = m.shapes := by
  obtain ⟨_, _, run, _, _⟩ := preparation_start c m
  exact run.shapes

/-- Who is refused is refused from the start, for the same reason. -/
theorem fault?_start (c : WeaveContext) (m : Module) (name : String) :
    (start c m).fault? c name = m.fault? c name := by
  obtain ⟨_, _, run, _, _⟩ := preparation_start c m
  cases known : m.findType? name with
  | none =>
    rw [fault?, fault?, known, unknown_of_shapes run.shapes known, Option.bind_none,
      Option.bind_none]
  | some t =>
    obtain ⟨t', known', same⟩ := findType?_of_shapes run.shapes known
    refine Option.ext fun e => ?_
    rw [fault?_eq_some known, fault?_eq_some known', requiredPlan, requiredPlan,
      isDisposable_of_shapes run.shapes same, (mem_of_findType? known).2,
      (mem_of_findType? known').2]
    split
    · exact Iff.rfl
    · exact run.planTeardown_error known known' e

theorem fieldsOf_start (c : WeaveContext) (m : Module) (name : String) :
    (start c m).fieldsOf name = m.fieldsOf name := (prepared_kept c (some default) m).2 name

/-- Clashes can be told from the start. -/
theorem clash_start {target : Target} : (handlePass c).Clash c (start c m) target ↔
    m.fault? c target.typeName = none ∧ m.clashes c target.typeName = true := by
  rw [← fault?_start]
  cases known : (start c m).findType? target.typeName with
  | none =>
    have unknown := unknown_of_shapes (shapes_start c m).symm known
    simp only [PassKind.Clash, Module.clashes, known, unknown, Option.any_none, reduceCtorEq,
      false_and, exists_false, Bool.false_eq_true, and_false]
  | some t =>
    obtain ⟨t₀, known₀, same⟩ := findType?_of_shapes (shapes_start c m).symm known
    have name : t₀.name = t.name := by
      show t₀.shape.name = t.shape.name
      rw [same]
    have clashes : (handlePass c).clashes (start c m) t = m.clashes c target.typeName := by
      show (start c m).declaresField t.definitionName (c.trackingField t).name = _
      rw [Module.clashes, known₀, Option.any_some, declaresField_eq, declaresField_eq, fieldsOf_start,
        (mem_of_findType? known).2, WeaveContext.trackingField, WeaveContext.trackingField, name]
    rw [fault?_eq_none known, ← clashes]
    constructor
    · rintro ⟨u, plan, same, planned, clash⟩
      cases known.symm.trans same
      exact ⟨⟨plan, planned⟩, clash⟩
    · rintro ⟨⟨plan, planned⟩, clash⟩
      exact ⟨t, plan, known, planned, clash⟩

theorem header_start (c : WeaveContext) (m : Module) : (start c m).header = m.header := by
  refine prepareTeardowns_induction (fun m' => m'.header = m.header) rfl fun m' t ancestor kept _ _ => ?_
  rw [Module.ensured, header_ensureTeardown, kept]

/-! ## A pass -/

/-- The message ahead of a pass. -/
def heading (family : Family) (targets : List Target) : Message where
  level := .info
  text := "Weaving " ++ toString targets.length ++ " " ++ family.text ++ " target(s)"

theorem runPass_round {p : PassKind} (lawful : p.Lawful c) {family : Family} {s : Session}
    (settled : Settled c (Target.select s.module c.markers family) s.module) :
    let targets := Target.select s.module c.markers family
    ((∀ target ∈ targets, ¬p.Clash c s.module target) ∧ ∃ s',
        runPass c family p.weave s = .ok () s' ∧ Rounds c p targets s.module s'.module ∧
        s'.report.targets = s.report.targets ++ targets.map (p.report c s.module) ∧
        s'.log = s.log ++ heading family targets :: targets.flatMap (p.transcript c s.module)) ∨
      (∃ target ∈ targets, p.Clash c s.module target) ∧ ∃ name s',
        runPass c family p.weave s = .error (.trackingFieldExists name) s' := by
  intro targets
  have opening : runPass c family p.weave s =
      targets.forM (weaveTarget p.weave) { s with log := s.log ++ [heading family targets] } :=
    (bind_ok rfl).trans (bind_ok rfl)
  rw [opening]
  obtain ⟨free, s', run, rounds, reports, log⟩ | failed :=
    lawful.forM_run (s := { s with log := s.log ++ [heading family targets] })
      (known_of_select s.module c.markers family) settled
      (Target.nodup_select s.module c.markers family)
  · exact .inl ⟨free, s', run, rounds, reports, by rw [log, List.append_assoc]; rfl⟩
  · exact .inr failed

/-- What the command pass does at a target can be told before the handle pass. -/
theorem commandPass_kept (capability : TypeRef) (kept : m.Keeps m') (target : Target) :
    (commandPass c capability).report c m' target = (commandPass c capability).report c m target ∧
      (commandPass c capability).transcript c m' target =
        (commandPass c capability).transcript c m target := by
  cases known : m.findType? target.typeName with
  | none =>
    have unknown := unknown_of_shapes kept.shapes known
    simp only [PassKind.report, PassKind.transcript, known, unknown, and_self]
  | some t =>
    obtain ⟨t', known', _⟩ := findType?_of_shapes kept.shapes known
    have plan : requiredPlan c t' m' = requiredPlan c t m := kept.requiredPlan known known'
    have entry : (commandPass c capability).entry target t' m' =
        (commandPass c capability).entry target t m := by
      simp only [commandPass, kept.releasableGetters capability target known known']
    constructor
    · simp only [PassKind.report, known, known', plan, entry]
    · simp only [PassKind.transcript, known, known', plan]
      rfl

end Weave

/-! ## A whole run -/

namespace WeaveContext

open ReleaseWeaver.Weave

variable {c : WeaveContext} {m : Module}

/-- What a property must be assignable to. -/
def capability (c : WeaveContext) (m : Module) : TypeRef :=
  (Collaborators.resolveCapability m c.config).toOption.getD default

/-- The pass over the targets of a family. -/
def pass (c : WeaveContext) (m : Module) : Family → PassKind
  | .trackHandles => handlePass c
  | .releaseCommands => commandPass c (c.capability m)

theorem lawful_pass (c : WeaveContext) (m : Module) (family : Family) :
    (c.pass m family).Lawful c := by
  cases family with
  | trackHandles => exact lawful_handles c
  | releaseCommands => exact lawful_commands c _

/-- The families that a run goes through. -/
def families (c : WeaveContext) : List Family :=
  if c.markers.hasFamily .releaseCommands then [.trackHandles, .releaseCommands] else [.trackHandles]

theorem flatMap_families {α : Type} (c : WeaveContext) (f : Family → List α) :
    c.families.flatMap f =
      f .trackHandles ++ if c.markers.hasFamily .releaseCommands then f .releaseCommands else [] := by
  unfold families
  split <;> simp [*]

/-- The collaborators and the markers are those of the module, and the capability is there if it is
asked for. -/
structure Bound (c : WeaveContext) (m : Module) : Prop where
  collaborators : Collaborators.resolve m c.config = .ok c.collaborators
  markers : c.markers = MarkerTable.collect m c.config.markers
  capability : c.markers.hasFamily .releaseCommands = true →
    ∃ capability, Collaborators.resolveCapability m c.config = .ok capability

theorem Bound.unique {c' : WeaveContext} (bound : c.Bound m) (bound' : c'.Bound m)
    (same : c'.config = c.config) : c' = c := by
  obtain ⟨config, collaborators, markers⟩ := c
  obtain ⟨config', collaborators', markers'⟩ := c'
  cases same
  have found := bound.collaborators.symm.trans bound'.collaborators
  cases found
  cases bound.markers.trans bound'.markers.symm
  rfl

end WeaveContext

namespace Weave

open ReleaseWeaver.Module Weaving

variable {c : WeaveContext} {m : Module} {outcome : WeaveOutcome}

/-- Nothing stands against a run: it has its collaborators, and no handle target that is not
refused has a field in the way. -/
structure Weavable (c : WeaveContext) (m : Module) : Prop where
  bound : c.Bound m
  free : ∀ target ∈ Target.select m c.markers .trackHandles,
    m.fault? c target.typeName = none → m.clashes c target.typeName = false

/-- The entries of a run. -/
def reports (c : WeaveContext) (m : Module) : WeaveReport where
  targets := c.families.flatMap fun family =>
    (Target.select m c.markers family).map ((c.pass m family).report c (start c m))

/-- The messages of a run. -/
def transcripts (c : WeaveContext) (m : Module) : Log :=
  (c.families.flatMap fun family => heading family (Target.select m c.markers family) ::
    (Target.select m c.markers family).flatMap ((c.pass m family).transcript c (start c m)))
  ++ [{ level := .info, text := closingMessage (reports c m) m.name }]

/-- How a run ends that comes to its end. -/
structure Completed (c : WeaveContext) (m : Module) (outcome : WeaveOutcome) : Prop where
  weavable : Weavable c m
  rounds : ∃ middle,
    Rounds c (c.pass m .trackHandles) (Target.select m c.markers .trackHandles) (start c m)
      middle ∧
    Rounds c (c.pass m .releaseCommands) (Target.select m c.markers .releaseCommands) middle
      outcome.module
  result : outcome.result = .ok (reports c m)
  log : outcome.log = transcripts c m

theorem capability_eq {capability : TypeRef}
    (found : Collaborators.resolveCapability m c.config = .ok capability) :
    c.capability m = capability := by
  rw [WeaveContext.capability, found]
  rfl

/-- What the end of a run needs to have before it: that both rounds are done, and what they left. -/
theorem completed_of_rounds {middle : Module} {s : Session} (weavable : Weavable c m)
    (handles : Rounds c (c.pass m .trackHandles) (Target.select m c.markers .trackHandles)
      (start c m) middle)
    (commands : Rounds c (c.pass m .releaseCommands) (Target.select m c.markers .releaseCommands)
      middle s.module)
    (reported : s.report.targets = (reports c m).targets)
    (logged : s.log ++ [{ level := .info, text := closingMessage (reports c m) m.name }] =
      transcripts c m) :
    Completed c m (outcomeOf (.ok s.report
      { s with log := s.log ++ [⟨.info, closingMessage s.report s.module.name, true⟩] })) := by
  have report : s.report = reports c m := by
    cases same : s.report
    rw [same] at reported
    exact congrArg WeaveReport.mk reported
  have header : s.module.header = m.header :=
    ((commands.header (c.lawful_pass m _)).trans (handles.header (c.lawful_pass m _))).trans
      (header_start c m)
  have name : s.module.name = m.name := congrArg Prod.fst header
  refine ⟨weavable, ⟨middle, handles, commands⟩, congrArg Except.ok report, ?_⟩
  rw [← logged, outcomeOf, report, name]

/-- The handle pass comes to its end exactly if nothing stands against the run. -/
theorem handles_run (bound : c.Bound m) :
    let targets := Target.select m c.markers .trackHandles
    (Weavable c m ∧ ∃ s, runPass c .trackHandles (trackHandles c) { module := start c m } = .ok () s ∧
        Rounds c (handlePass c) targets (start c m) s.module ∧
        s.report.targets = targets.map ((handlePass c).report c (start c m)) ∧
        s.log = heading .trackHandles targets ::
          targets.flatMap ((handlePass c).transcript c (start c m))) ∨
      ¬Weavable c m ∧ ∃ name s, runPass c .trackHandles (trackHandles c) { module := start c m } =
        .error (.trackingFieldExists name) s := by
  have selected := select_start (m := m) bound.markers .trackHandles
  have settled : Settled c (Target.select (start c m) c.markers .trackHandles) (start c m) := by
    rw [selected]
    exact settled_start c m .trackHandles
  have ran := runPass_round (s := { module := start c m }) (lawful_handles c) settled
  dsimp only at ran
  rw [selected] at ran
  obtain ⟨free, s, run, rounds, reported, logged⟩ | ⟨⟨target, listed, clash⟩, stop⟩ := ran
  · rw [List.nil_append] at reported logged
    refine .inl ⟨⟨bound, fun target listed accepted => ?_⟩, s, run, rounds, reported, logged⟩
    by_contra clash
    exact free target listed (clash_start.2 ⟨accepted, by simpa using clash⟩)
  · obtain ⟨accepted, clash⟩ := clash_start.1 clash
    refine .inr ⟨fun weavable => ?_, stop⟩
    cases (weavable.free target listed accepted).symm.trans clash

/-- The command pass comes to its end, and does what can be told before the handle pass. -/
theorem commands_run (bound : c.Bound m) {s : Session} (kept : (start c m).Keeps s.module)
    (capability : TypeRef) :
    let targets := Target.select m c.markers .releaseCommands
    ∃ s', runPass c .releaseCommands (releaseCommands c capability) s = .ok () s' ∧
      Rounds c (commandPass c capability) targets s.module s'.module ∧
      s'.report.targets =
        s.report.targets ++ targets.map ((commandPass c capability).report c (start c m)) ∧
      s'.log = s.log ++ heading .releaseCommands targets ::
        targets.flatMap ((commandPass c capability).transcript c (start c m)) := by
  have selected : Target.select s.module c.markers .releaseCommands =
      Target.select m c.markers .releaseCommands := by
    rw [select_commands_of_shapes kept.shapes, select_start bound.markers]
  have settled : Settled c (Target.select s.module c.markers .releaseCommands) s.module := by
    rw [selected]
    exact (settled_start c m .releaseCommands).of_keeps kept
  obtain ⟨_, s', run, rounds, reported, logged⟩ | ⟨⟨_, _, _, _, _, _, clash⟩, _⟩ :=
    runPass_round (lawful_commands c capability) settled
  case inr => cases clash
  have reports : (commandPass c capability).report c s.module =
      (commandPass c capability).report c (start c m) :=
    funext fun target => (commandPass_kept capability kept target).1
  have transcripts : (commandPass c capability).transcript c s.module =
      (commandPass c capability).transcript c (start c m) :=
    funext fun target => (commandPass_kept capability kept target).2
  rw [selected, reports] at reported
  rw [selected, transcripts] at logged
  exact ⟨s', run, selected ▸ rounds, reported, logged⟩

/-- Once the collaborators are bound, a run comes to its end unless there is a clash. -/
theorem passes_completed {capability : Option TypeRef} (bound : c.Bound m)
    (present : capability.isSome = true ↔ c.markers.hasFamily .releaseCommands = true)
    (found : ∀ capability', capability = some capability' →
      Collaborators.resolveCapability m c.config = .ok capability') :
    Completed c m (outcomeOf (passes c capability m { module := m })) ∨
      (∃ e, (outcomeOf (passes c capability m { module := m })).result = .error e) ∧
        ¬Weavable c m := by
  have opening : setModule (prepared c capability m) { module := m } =
      .ok () { module := start c m } := by
    rw [prepared_eq_start present]
    rfl
  obtain ⟨weavable, s₁, handles, rounds, reported, logged⟩ | ⟨hindered, name, s₁, stop⟩ :=
    handles_run bound
  case inr =>
    have ended : passes c capability m { module := m } = .error (.trackingFieldExists name) s₁ :=
      (bind_ok opening).trans (bind_error stop)
    rw [ended]
    exact .inr ⟨⟨.trackingFieldExists name, rfl⟩, hindered⟩
  refine .inl ?_
  cases capability with
  | none =>
    have absent : ¬c.markers.hasFamily .releaseCommands = true := fun marked => by
      cases present.2 marked
    have families : c.families = [.trackHandles] := if_neg absent
    have ended : passes c none m { module := m } = .ok s₁.report
        { s₁ with log := s₁.log ++ [⟨.info, closingMessage s₁.report s₁.module.name, true⟩] } :=
      (bind_ok opening).trans ((bind_ok handles).trans rfl)
    rw [ended]
    refine completed_of_rounds weavable rounds ?_ ?_ ?_
    · rw [select_eq_nil (Bool.eq_false_iff.2 absent)]
      exact .done
    · rw [reported, reports, families, List.flatMap_singleton]
      rfl
    · rw [logged, transcripts, families, List.flatMap_singleton]
      rfl
  | some capability =>
    have families : c.families = [.trackHandles, .releaseCommands] := if_pos (present.1 rfl)
    have pass : c.pass m .releaseCommands = commandPass c capability := by
      rw [WeaveContext.pass, capability_eq (found capability rfl)]
    obtain ⟨s₂, commands, rounds', reported', logged'⟩ :=
      commands_run bound (rounds.keeps (lawful_handles c)) capability
    have ended : passes c (some capability) m { module := m } = .ok s₂.report
        { s₂ with log := s₂.log ++ [⟨.info, closingMessage s₂.report s₂.module.name, true⟩] } :=
      (bind_ok opening).trans ((bind_ok handles).trans ((bind_ok commands).trans rfl))
    rw [ended]
    refine completed_of_rounds weavable rounds (pass ▸ rounds') ?_ ?_
    · rw [reported', reported, reports, families, ← pass]
      simp only [List.flatMap_cons, List.flatMap_nil, List.append_nil]
      rfl
    · rw [logged', logged, transcripts, families, ← pass]
      simp only [List.flatMap_cons, List.flatMap_nil, List.append_nil]
      rfl

/-- A run comes to its end exactly if nothing stands against it. -/
theorem weave_completed (m : Module) (config : Config) :
    (∃ c, c.config = config ∧ Completed c m (m.weave config)) ∨
      (∃ e, (m.weave config).result = .error e) ∧ ∀ c, c.config = config → ¬Weavable c m := by
  cases resolved : Collaborators.resolve m config with
  | error e =>
    refine .inr ⟨⟨.binding e, ?_⟩, ?_⟩
    · rw [weave_eq, execute_missing resolved]
      rfl
    · rintro c rfl ⟨bound, _⟩
      rw [bound.collaborators] at resolved
      cases resolved
  | ok collaborators =>
    let c : WeaveContext := ⟨config, collaborators, MarkerTable.collect m config.markers⟩
    rw [weave_eq, execute_bound resolved]
    obtain ⟨capability, run, present, found⟩ | ⟨e, run, marked, missing⟩ :=
      resolveCapability_run config (MarkerTable.collect m config.markers) { module := m }
    · have bound : c.Bound m := by
        refine ⟨resolved, rfl, fun marked => ?_⟩
        obtain ⟨capability', same⟩ := Option.isSome_iff_exists.1 (present.2 marked)
        exact ⟨capability', found capability' same⟩
      rw [bind_ok run]
      obtain completed | ⟨failed, clash⟩ := passes_completed bound present found
      · exact .inl ⟨c, rfl, completed⟩
      · refine .inr ⟨failed, fun c' same weavable => clash ?_⟩
        rwa [← bound.unique weavable.bound same]
    · refine .inr ⟨⟨.binding e, ?_⟩, ?_⟩
      · rw [bind_error run]
        rfl
      · rintro c' rfl ⟨bound, _⟩
        obtain ⟨capability, found⟩ := bound.capability (bound.markers ▸ marked)
        rw [missing] at found
        cases found

/-- A run over a module with nothing against it comes to its end. -/
theorem Weavable.completed (weavable : Weavable c m) : Completed c m (m.weave c.config) := by
  obtain ⟨c', same, completed⟩ | ⟨_, hindered⟩ := weave_completed m c.config
  · rwa [weavable.bound.unique completed.weavable.bound same] at completed
  · exact absurd weavable (hindered c rfl)

/-- A run that comes to its end is a completed one. -/
theorem completed_of_ok {config : Config} {report : WeaveReport}
    (ended : (m.weave config).result = .ok report) :
    ∃ c, c.config = config ∧ Completed c m (m.weave config) ∧ report = reports c m := by
  obtain ⟨c, same, completed⟩ | ⟨⟨e, failed⟩, _⟩ := weave_completed m config
  · have result := completed.result
    rw [ended] at result
    exact ⟨c, same, completed, Except.ok.inj result⟩
  · rw [ended] at failed
    cases failed

end Weave

/-- Whether a run over the module will come to its end. -/
def Module.weavable (m : Module) (config : Config) : Bool :=
  match Collaborators.resolve m config with
  | .error _ => false
  | .ok collaborators =>
    let c : WeaveContext := ⟨config, collaborators, MarkerTable.collect m config.markers⟩
    (!c.markers.hasFamily .releaseCommands || (Collaborators.resolveCapability m config).isOk) &&
      (Target.select m c.markers .trackHandles).all fun target =>
        (m.fault? c target.typeName).isSome || !m.clashes c target.typeName

theorem Module.weavable_iff {m : Module} {config : Config} :
    m.weavable config = true ↔ ∃ c, c.config = config ∧ Weave.Weavable c m := by
  have isOk_iff {α ε : Type} (x : Except ε α) : x.isOk = true ↔ ∃ a, x = .ok a := by
    cases x <;> simp [Except.isOk, Except.toBool]
  unfold weavable
  cases resolved : Collaborators.resolve m config with
  | error e =>
    refine ⟨nofun, ?_⟩
    rintro ⟨c, rfl, bound, _⟩
    cases resolved.symm.trans bound.collaborators
  | ok collaborators =>
    dsimp only
    rw [Bool.and_eq_true, Bool.or_eq_true, isOk_iff, Bool.not_eq_true', List.all_eq_true]
    constructor
    · rintro ⟨capability, free⟩
      refine ⟨⟨config, collaborators, MarkerTable.collect m config.markers⟩, rfl,
        ⟨resolved, rfl, fun marked => ?_⟩, fun target listed accepted => ?_⟩
      · exact capability.resolve_left (by rw [marked]; exact Bool.noConfusion)
      · have either := free target listed
        rw [accepted] at either
        simpa using either
    · rintro ⟨⟨config', collaborators', markers⟩, same, ⟨found, collected, capability⟩, free⟩
      dsimp only at same found collected capability free
      subst same collected
      cases resolved.symm.trans found
      refine ⟨?_, fun target listed => ?_⟩
      · by_cases marked : (MarkerTable.collect m config'.markers).hasFamily .releaseCommands = true
        · exact .inr (capability marked)
        · exact .inl (by simpa using marked)
      · cases fault : m.fault? _ target.typeName with
        | some e => rfl
        | none =>
          rw [free target listed fault]
          rfl

/-- A run comes to its end exactly if it will. -/
theorem Module.weave_isOk (m : Module) (config : Config) :
    (m.weave config).result.isOk = m.weavable config := by
  rw [Bool.eq_iff_iff, weavable_iff]
  obtain ⟨c, same, completed⟩ | ⟨⟨e, failed⟩, hindered⟩ := Weave.weave_completed m config
  · rw [completed.result]
    exact ⟨fun _ => ⟨c, same, completed.weavable⟩, fun _ => rfl⟩
  · rw [failed]
    exact ⟨nofun, fun ⟨c, same, weavable⟩ => absurd weavable (hindered c same)⟩

theorem Module.weave_of_weavable {m : Module} {config : Config}
    (ends : m.weavable config = true) : ∃ report, (m.weave config).result = .ok report := by
  obtain ⟨c, rfl, weavable⟩ := weavable_iff.1 ends
  exact ⟨_, weavable.completed.result⟩

end ReleaseWeaver
