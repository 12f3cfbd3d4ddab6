import ReleaseWeaver.Proofs.Weave.Outcome
import ReleaseWeaver.Sample.Scenario

/-
  What a run tells of its targets. An entry, and what is said about it, can be told from the
  original module: the preparation neither refuses a target nor accepts one that would have been
  refused, and the overrides that it adds are no marked methods. Main statement: the report and the
  two sinks of a run that comes to its end, in full.
-/

namespace ReleaseWeaver

namespace Log

variable {α : Type} (sinks : Sinks) (level : Level)

theorem collected_append (log log' : Log) : collected (log ++ log') sinks level =
    log.collected sinks level ++ log'.collected sinks level := by
  cases sinks with
  | silent => rfl
  | collecting => simp only [collected, List.filter_append, List.map_append]

theorem collected_flatMap (f : α → Log) (xs : List α) : collected (xs.flatMap f) sinks level =
    xs.flatMap fun x => (f x).collected sinks level := by
  induction xs with
  | nil => cases sinks <;> rfl
  | cons x rest ih => rw [List.flatMap_cons, List.flatMap_cons, collected_append, ih]

end Log

/-! ## What is said of an entry -/

/-- What a run says of an entry as errors: why it is skipped, or which marked methods of a handle
target it cannot change. -/
def Module.complaints (m : Module) (c : WeaveContext) (entry : TargetReport) : List String :=
  match entry.skipReason, entry.family, m.findType? entry.typeName with
  | some reason, _, _ => [reason]
  | none, .trackHandles, some t =>
    (entry.target.excludedMethods c.markers t).map fun method => Weave.excludedMessage t method.2
  | _, _, _ => []

/-- What a run says of an entry for information: that it starts, and that it is done if it is
released. -/
def TargetReport.notices (entry : TargetReport) : List String :=
  ("Weaving target: " ++ entry.typeName) ::
    if entry.isReleased then ["Completed weaving target: " ++ entry.typeName] else []

namespace Weave

open ReleaseWeaver.Module

variable {c : WeaveContext} {m : Module} {target : Target} {family : Family} {t t' : TypeDef}

/-- The marked methods that cannot be changed are the same before the preparation. -/
theorem exclusions_start (known : m.findType? target.typeName = some t)
    (known' : (start c m).findType? target.typeName = some t') :
    exclusions c target t' = exclusions c target t := by
  obtain ⟨_, given, run, _, _⟩ := preparation_start c m
  obtain ⟨overrides, methods, _, gives⟩ := run.keyedMethods known known'
  have none : overrides.filter (fun override => !override.2.isInstanceWithBody &&
      c.markers.contains (.method override.1) target.family) = [] := by
    refine List.filter_eq_nil_iff.2 fun override listed => ?_
    obtain ⟨_, gives⟩ := gives override listed
    simp [gives.isInstanceWithBody]
  have named : t'.definitionName = t.definitionName :=
    (mem_of_findType? known').2.trans (mem_of_findType? known).2.symm
  have said (d : MethodDef) (opens : Bool) :
      excludedMessage t' (d.openedIf opens) = excludedMessage t d := by
    rw [excludedMessage, excludedMessage, TypeDef.qualifiedName, TypeDef.qualifiedName, named]
    rfl
  rw [exclusions, exclusions, Target.excludedMethods, Target.excludedMethods, methods,
    List.filter_append, none, List.append_nil, List.filter_map, List.map_map]
  simp only [Function.comp_def, MethodDef.isInstanceWithBody_openedIf, said]

/-- The entry of a target, told from the original module. -/
theorem report_start (known : (start c m).findType? target.typeName = some t) :
    (c.pass m family).report c (start c m) target = match m.fault? c target.typeName with
      | some e => target.refusal e
      | none => (c.pass m family).entry target t (start c m) := by
  rw [← fault?_start, fault?, PassKind.report, known, Option.bind_some]
  cases planned : requiredPlan c t (start c m) <;> simp [planned]

/-- A pass enters its targets as they are. -/
theorem target_report (c : WeaveContext) (m : Module) (family : Family) (target : Target) :
    ((c.pass m family).report c (start c m) target).target = target := by
  unfold PassKind.report
  split
  · rfl
  · split
    · rfl
    · cases family <;> rfl

theorem released_entry (c : WeaveContext) (m m' : Module) (family : Family) (target : Target)
    (t : TypeDef) : ((c.pass m family).entry target t m').state = .released ∧
      ((c.pass m family).entry target t m').skipReason = none := by
  cases family <;> exact ⟨rfl, rfl⟩

theorem collected_exclusions (c : WeaveContext) (target : Target) (t : TypeDef) :
    (exclusions c target t).collected .collecting .error =
        (target.excludedMethods c.markers t).map (fun method => excludedMessage t method.2) ∧
      (exclusions c target t).collected .collecting .info = [] := by
  simp [Log.collected, exclusions, List.filter_map, Function.comp_def]

theorem complaints_released {entry : TargetReport} (about : entry.target = target)
    (accepted : entry.skipReason = none) (known : m.findType? target.typeName = some t) :
    m.complaints c entry = match target.family with
      | .trackHandles => (target.excludedMethods c.markers t).map fun method =>
          excludedMessage t method.2
      | .releaseCommands => [] := by
  subst about
  have known' : m.findType? entry.typeName = some t := known
  rw [complaints, accepted, known', TargetReport.target]
  cases entry.family <;> rfl

/-- What the turn of a target writes as errors, and what for information. -/
theorem collected_transcript (listed : target ∈ Target.select m c.markers family) :
    let entry := (c.pass m family).report c (start c m) target
    let messages := (c.pass m family).transcript c (start c m) target
    messages.collected .collecting .error = m.complaints c entry ∧
      messages.collected .collecting .info = entry.notices := by
  obtain ⟨same, t, known⟩ := of_mem_select listed
  obtain ⟨t', known', _⟩ := findType?_of_shapes (shapes_start c m) known
  intro entry messages
  have fault : m.fault? c target.typeName = (start c m).fault? c target.typeName :=
    (fault?_start c m target.typeName).symm
  have reported : entry = match m.fault? c target.typeName with
      | some e => target.refusal e
      | none => (c.pass m family).entry target t' (start c m) := report_start known'
  cases planned : requiredPlan c t' (start c m) with
  | error e =>
    rw [fault, (fault?_eq_some known').2 planned] at reported
    have written : messages = [{ level := .info, text := "Weaving target: " ++ target.typeName },
        { level := .error, text := e.message }] := by
      simp only [messages, PassKind.transcript, known', planned]
    rw [written, reported]
    exact ⟨rfl, rfl⟩
  | ok plan =>
    rw [fault, (fault?_eq_none known').2 ⟨plan, planned⟩] at reported
    have written : messages = { level := .info, text := "Weaving target: " ++ target.typeName } ::
        ((c.pass m family).said target t' ++
          [{ level := .info, text := "Completed weaving target: " ++ target.typeName }]) := by
      simp only [messages, PassKind.transcript, known', planned]
    have about : entry.target = target := target_report c m family target
    have accepted : entry.skipReason = none := reported ▸ (released_entry ..).2
    have released : entry.isReleased = true := reported ▸ decide_eq_true (released_entry ..).1
    have named : entry.typeName = target.typeName := congrArg Target.typeName about
    have notices : entry.notices = ["Weaving target: " ++ target.typeName,
        "Completed weaving target: " ++ target.typeName] := by
      rw [TargetReport.notices, if_pos released, named]
    obtain ⟨errors, infos⟩ := collected_exclusions c target t
    rw [written, notices, complaints_released about accepted known, same, ← List.singleton_append,
      Log.collected_append, Log.collected_append, Log.collected_append, Log.collected_append]
    cases family with
    | trackHandles =>
      have said : (c.pass m .trackHandles).said target t' = exclusions c target t :=
        exclusions_start known known'
      rw [said, errors, infos]
      exact ⟨by simp [Log.collected], rfl⟩
    | releaseCommands => exact ⟨rfl, rfl⟩

/-! ## All entries -/

theorem filter_reports (listed : family ∈ c.families) :
    (reports c m).targets.filter (fun entry => entry.family = family) =
      (Target.select m c.markers family).map ((c.pass m family).report c (start c m)) := by
  have alone (f : Family) : ((Target.select m c.markers f).map
      ((c.pass m f).report c (start c m))).filter (fun entry => entry.family = family) =
      if f = family then (Target.select m c.markers f).map ((c.pass m f).report c (start c m))
      else [] := by
    have about (entry : TargetReport) (inside : entry ∈ (Target.select m c.markers f).map
        ((c.pass m f).report c (start c m))) : entry.family = f := by
      obtain ⟨target, selected, rfl⟩ := List.mem_map.1 inside
      have same := congrArg Target.family (target_report c m f target)
      exact same.trans (of_mem_select selected).1
    split
    · next same =>
      exact List.filter_eq_self.2 fun entry inside => by simp [about entry inside, same]
    · next other =>
      exact List.filter_eq_nil_iff.2 fun entry inside => by simp [about entry inside, other]
  rw [reports, List.filter_flatMap]
  simp only [alone]
  unfold WeaveContext.families at listed ⊢
  split at listed <;> cases family <;> simp_all

theorem flatMap_reports {α : Type} (f : TargetReport → List α) :
    (reports c m).targets.flatMap f = c.families.flatMap fun family =>
      (Target.select m c.markers family).flatMap fun target =>
        f ((c.pass m family).report c (start c m) target) := by
  rw [reports, List.flatMap_assoc]
  simp only [List.flatMap_map]

theorem mem_reports {entry : TargetReport} (listed : entry ∈ (reports c m).targets) :
    ∃ family ∈ c.families, ∃ target ∈ Target.select m c.markers family,
      entry = (c.pass m family).report c (start c m) target := by
  obtain ⟨family, inside, listed⟩ := List.mem_flatMap.1 listed
  obtain ⟨target, selected, rfl⟩ := List.mem_map.1 listed
  exact ⟨family, inside, target, selected, rfl⟩

/-- An entry is that of a refused target, or of a released one. -/
theorem entry_cases {entry : TargetReport} (listed : entry ∈ (reports c m).targets) :
    (∃ e, m.fault? c entry.typeName = some e ∧ entry = entry.target.refusal e) ∨
      m.fault? c entry.typeName = none ∧ entry.state = .released ∧ entry.skipReason = none := by
  obtain ⟨family, _, target, selected, same⟩ := mem_reports listed
  have about : entry.target = target := same ▸ target_report c m family target
  have named : entry.typeName = target.typeName := congrArg Target.typeName about
  obtain ⟨_, t, known⟩ := of_mem_select selected
  obtain ⟨t', known', _⟩ := findType?_of_shapes (shapes_start c m) known
  rw [report_start known'] at same
  rw [named, about]
  cases fault : m.fault? c target.typeName with
  | some e =>
    rw [fault] at same
    exact .inl ⟨e, rfl, same⟩
  | none =>
    rw [fault] at same
    exact .inr ⟨rfl, same ▸ released_entry c m (start c m) family target t'⟩

/-- What the run writes to the sink of a level. -/
theorem collected_transcripts (level : Level) (said : TargetReport → List String)
    (each : ∀ family, ∀ target ∈ Target.select m c.markers family,
      ((c.pass m family).transcript c (start c m) target).collected .collecting level =
        said ((c.pass m family).report c (start c m) target)) :
    (transcripts c m).collected .collecting level = (c.families.flatMap fun family =>
      Log.collected [heading family (Target.select m c.markers family)] .collecting level ++
        (Target.select m c.markers family).flatMap fun target =>
          said ((c.pass m family).report c (start c m) target)) ++
      Log.collected [{ level := .info, text := closingMessage (reports c m) m.name }] .collecting
        level := by
  rw [transcripts, Log.collected_append, Log.collected_flatMap]
  refine congrArg (· ++ _) (List.flatMap_congr fun family _ => ?_)
  rw [← List.singleton_append, Log.collected_append, Log.collected_flatMap]
  exact congrArg (_ ++ ·) (List.flatMap_congr (each family))

end Weave

/-- What a run over `m` that comes to its end tells: an entry for each target, in declaration
order, those of commands last and only if there is a marker of theirs; for each entry whether its
target was refused from the start, and why; and what the two sinks have received. -/
structure Module.Accounts (m : Module) (c : WeaveContext) (report : WeaveReport) (log : Log) :
    Prop where
  targets : report.targets.map TargetReport.target =
    Target.select m c.markers .trackHandles ++
      if c.markers.hasFamily .releaseCommands then Target.select m c.markers .releaseCommands else []
  skipped : ∀ entry ∈ report.targets, ∀ e, m.fault? c entry.typeName = some e →
    entry = { typeName := entry.typeName, family := entry.family, wide := entry.wide,
              state := .unweaved, registrations := 0, constructors := 0, propertiesReleased := 0,
              skipReason := some e.message }
  released : ∀ entry ∈ report.targets, m.fault? c entry.typeName = none →
    entry.state = .released ∧ entry.skipReason = none
  errors : log.collected .collecting .error = report.targets.flatMap (m.complaints c)
  infos : log.collected .collecting .info = (c.families.flatMap fun family =>
      let entries := report.targets.filter fun entry => entry.family = family
      ("Weaving " ++ toString entries.length ++ " " ++ family.text ++ " target(s)") ::
        entries.flatMap TargetReport.notices) ++ [Weave.closingMessage report m.name]

/-- The report and the sinks tell what happened to each target, and for skipped ones why. -/
theorem Module.weave_accounts {m : Module} {config : Config} {report : WeaveReport}
    (ended : (m.weave config).result = .ok report) :
    ∃ collaborators, Collaborators.resolve m config = .ok collaborators ∧
      m.Accounts ⟨config, collaborators, MarkerTable.collect m config.markers⟩ report
        (m.weave config).log := by
  obtain ⟨c, rfl, completed, rfl⟩ := Weave.completed_of_ok ended
  have bound := completed.weavable.bound
  refine ⟨c.collaborators, bound.collaborators, ?_⟩
  rw [← bound.markers, completed.log]
  exact
    { targets := by
        rw [← c.flatMap_families, Weave.reports, List.map_flatMap]
        simp only [List.map_map, Function.comp_def, Weave.target_report, List.map_id']
      skipped := by
        intro entry listed e fault
        obtain ⟨e', fault', refused⟩ | ⟨accepted, _⟩ := Weave.entry_cases listed
        · cases fault.symm.trans fault'
          exact refused
        · cases fault.symm.trans accepted
      released := by
        intro entry listed accepted
        obtain ⟨e, fault, _⟩ | ⟨_, released⟩ := Weave.entry_cases listed
        · cases fault.symm.trans accepted
        · exact released
      errors := by
        rw [Weave.flatMap_reports, Weave.collected_transcripts .error (m.complaints c)
          fun family target listed => (Weave.collected_transcript listed).1]
        exact List.append_nil _
      infos := by
        rw [Weave.collected_transcripts .info TargetReport.notices
          fun family target listed => (Weave.collected_transcript listed).2]
        refine congrArg (· ++ _) (List.flatMap_congr fun family listed => ?_)
        dsimp only
        rw [Weave.filter_reports listed, List.length_map, List.flatMap_map]
        rfl }

/-- A handle target that is not disposable, and a target of both families with a marked static
method. -/
def Sample.partlyRefused : Module :=
  let building : Building Unit := do
    Scenario.notDisposable
    Scenario.trackedCommandModel
    modify fun m => m.addMethod "Sweep.Tests.Models.TrackedCommandModel"
      { staticMethod "Shared" none [] with attributes := [trackHandlesMarker] }
  match building.run baseModule with
  | .ok _ m | .error _ m => m

theorem Sample.weavable_partlyRefused : partlyRefused.weavable Config.default = true := by
  decide +kernel

open Sample in
theorem Module.weave_accounts_partlyRefused : ∃ report,
    (partlyRefused.weave Config.default).result = .ok report ∧
      ∃ collaborators, Collaborators.resolve partlyRefused Config.default = .ok collaborators ∧
        partlyRefused.Accounts ⟨Config.default, collaborators,
            MarkerTable.collect partlyRefused Config.default.markers⟩ report
          (partlyRefused.weave Config.default).log := by
  obtain ⟨report, ended⟩ := weave_of_weavable weavable_partlyRefused
  exact ⟨report, ended, weave_accounts ended⟩

end ReleaseWeaver
