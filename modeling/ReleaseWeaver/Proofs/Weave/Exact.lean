import ReleaseWeaver.Proofs.Weave.Outcome
import ReleaseWeaver.Proofs.Weave.Turns

/-
  What a run makes of a target that it releases, exactly. The passes start from the original
  methods and an override at most. Main statement: the lines of every method of the target are the
  lines from before the passes with the insertions of both families, and nothing else of the
  methods changes; a scan of the result finds the handle calls that were registered.
-/

namespace ReleaseWeaver

/-! ## Before the passes -/

namespace Module

variable {m m' : Module} {d : Disposal} {t : TypeDef} {owner : String}

theorem ownTeardown?_of_synthesize {ancestor : MethodKey}
    (planned : m.planTeardown d t = .ok (.synthesize ancestor)) : t.ownTeardown? d = none := by
  unfold planTeardown at planned
  split at planned
  · split at planned <;> cases planned
  · next none => exact none

/-- A method of the module that the passes start from, flags aside: one of the original, or an
override at the end of its type, an instance method that calls what it overrides and returns. -/
def Prepared (m : Module) (d : Disposal) (m' : Module) (key : MethodKey) : Prop :=
  (m'.findMethod? key).map MethodDef.core = (m.findMethod? key).map MethodDef.core ∨
    key = m.nextMethodKey key.owner ∧ ∃ inherited declaring, d.isTeardown inherited = true ∧
      (m'.findMethod? key).map MethodDef.core = some
        { name := inherited.name, returns := inherited.returns, flags := {},
          visibility := inherited.visibility,
          body := some (Body.ofInstrs [.ldthis, .call (inherited.refIn declaring), .ret]) }

theorem prepared_prepareTeardowns (d : Disposal) (targets : List Target) (m : Module) :
    ∀ key, m.Prepared d (Weave.prepareTeardowns d targets m).1 key := by
  refine prepareTeardowns_induction (fun m' => ∀ key, m.Prepared d m' key) (fun _ => .inl rfl)
    fun m' t ancestor kept known planned key => ?_
  have fits := fits_of_planTeardown (mem_of_findType? known).1 planned
  obtain ⟨_, inherited, declaring, teardown, each⟩ := core_synthesized fits known
  by_cases next : key = m'.nextMethodKey t.definitionName
  · -- The type has no teardown yet, so no override either: its methods are the original ones.
    have without := not_isTeardown_of_own known (ownTeardown?_of_synthesize planned)
    have same (i : Nat) : (m'.findMethod? ⟨t.definitionName, i⟩).isSome =
        (m.findMethod? ⟨t.definitionName, i⟩).isSome := by
      obtain same | ⟨_, inherited', declaring', teardown', override⟩ := kept ⟨t.definitionName, i⟩
      · rw [← Option.isSome_map (f := MethodDef.core), same, Option.isSome_map]
      · refine absurd ?_ (without i)
        rw [isTeardown_of_core (x := m'.findMethod? ⟨t.definitionName, i⟩)
          (y := some (overridingTeardown inherited' (inherited'.refIn declaring')))
          (override.trans (congrArg some (core_overridingTeardown _ teardown').symm)),
          Option.map_some, isTeardown_overridingTeardown _ teardown']
    refine .inr ⟨?_, inherited, declaring, teardown, ?_⟩
    · rw [next, nextMethodKey_congr same]
      rfl
    · rw [each, if_pos next, core_overridingTeardown _ teardown]
  · have same := each key
    rw [if_neg next] at same
    unfold Prepared
    rw [same]
    exact kept key

end Module

/-! ## Targets of a type -/

namespace Target

variable {m : Module} {table : MarkerTable} {family : Family} {target : Target} {t : TypeDef}

theorem typeName_of_ofType? (chosen : ofType? table family t = some target) :
    target.typeName = t.definitionName ∧ target.family = family := by
  unfold ofType? at chosen
  dsimp only at chosen
  split at chosen
  · cases chosen
    exact ⟨rfl, rfl⟩
  · cases chosen

theorem mem_select_iff (known : m.findType? target.typeName = some t) :
    target ∈ select m table family ↔
      t.isLocal = true ∧ ofType? table family t = some target := by
  obtain ⟨listed, named⟩ := Module.mem_of_findType? known
  constructor
  · intro selected
    obtain ⟨u, own, chosen⟩ := List.mem_filterMap.1 selected
    obtain ⟨declared, isLocal⟩ := List.mem_filter.1 own
    have known' := Module.findType?_of_mem declared
    rw [← (typeName_of_ofType? chosen).1, known] at known'
    cases known'
    exact ⟨isLocal, chosen⟩
  · rintro ⟨isLocal, chosen⟩
    exact List.mem_filterMap.2 ⟨t, List.mem_filter.2 ⟨listed, isLocal⟩, chosen⟩

/-- Where a type is no target of a family, no target of the family has its name. -/
theorem ne_of_ofType?_none (known : m.findType? t.definitionName = some t)
    (none : ofType? table family t = none) :
    ∀ target ∈ select m table family, t.definitionName ≠ target.typeName := by
  intro target selected same
  rw [((mem_select_iff (same ▸ known)).1 selected).2] at none
  cases none

end Target

/-! ## A whole run -/

namespace Module

/-- The getters of a type's commands that a run over the module releases. -/
def commandGetters (m : Module) (c : WeaveContext) (t : TypeDef) : List MethodRef :=
  match Collaborators.resolveCapability m c.config, Target.ofType? c.markers .releaseCommands t with
  | .ok capability, some target => Weave.releasableGetters c capability (Weave.start c m) target t
  | _, _ => []

/-- What a run over the module puts into a method of a released type. -/
def insertions (m : Module) (c : WeaveContext) (t : TypeDef) (key : MethodKey) (d : MethodDef) :
    Insertions :=
  c.insertions (Target.ofType? c.markers .trackHandles t) (m.commandGetters c t) t key d

/-- What a run over `m` makes of a released target, whose type is `t` when the passes start. -/
structure Rewrites (m : Module) (c : WeaveContext) (entry : TargetReport) (t : TypeDef)
    (after : Module) : Prop where
  known : (Weave.start c m).findType? entry.typeName = some t
  marked : Target.ofType? c.markers entry.family t = some entry.target
  /-- The passes start from the original methods and an override at most. -/
  prepared : ∀ key, key.owner = entry.typeName →
    m.Prepared c.disposal (Weave.start c m) key
  teardown : ∃ key own exit, t.ownTeardown? c.disposal = some (key, own) ∧
    own.finalExit? = some exit
  shells : ∀ key, key.owner = entry.typeName →
    (after.findMethod? key).map MethodDef.shell =
      ((Weave.start c m).findMethod? key).map MethodDef.shell
  lines : ∀ key d, key.owner = entry.typeName → (Weave.start c m).findMethod? key = some d →
    (after.findMethod? key).bind MethodDef.lines? =
      d.lines?.map ((m.insertions c t key d).applied
        (Instr.isHandleCall c.collaborators.contract c.config.handleCallFragment))
  registrations : entry.registrations =
    if entry.family = .trackHandles then (entry.target.sites c (Weave.start c m)).length else 0
  /-- A scan of the woven methods finds what was registered, unless it finds an insertion. -/
  rescan : (∀ key d, key.owner = entry.typeName → (Weave.start c m).findMethod? key = some d →
      ∀ i ∈ (m.insertions c t key d).all,
        i.isHandleCall c.collaborators.contract c.config.handleCallFragment = false) →
    entry.target.sites c after = entry.target.sites c (Weave.start c m)

variable {m after before : Module} {c : WeaveContext} {target : Target} {t : TypeDef}

/-- Changes of the methods that keep what is in scope and the handle calls keep the sites. -/
theorem sites_of_map {g : MethodKey → MethodDef → MethodDef}
    (known : before.findType? target.typeName = some t) (shapes : after.shapes = before.shapes)
    (each : ∀ key, key.owner = target.typeName →
      after.findMethod? key = (before.findMethod? key).map (g key))
    (scope : ∀ key d, (g key d).isInstanceWithBody = d.isInstanceWithBody)
    (calls : ∀ key d, key.owner = target.typeName → before.findMethod? key = some d →
      (g key d).handleCalls c = d.handleCalls c) :
    target.sites c after = target.sites c before := by
  have named : t.definitionName = target.typeName := (mem_of_findType? known).2
  obtain ⟨t', known', _⟩ := findType?_of_shapes shapes known
  have named' : t'.definitionName = target.typeName := (mem_of_findType? known').2
  have methods (i : Nat) : t'.methods[i]? = t.methods[i]?.map (g ⟨target.typeName, i⟩) := by
    rw [← findMethod?_of_known known, ← findMethod?_of_known known']
    exact each ⟨target.typeName, i⟩ rfl
  have keyed : t'.keyedMethods = t.keyedMethods.map fun method => (method.1, g method.1 method.2) := by
    refine List.ext_getElem? fun i => ?_
    simp only [TypeDef.keyedMethods, List.map_map, List.getElem?_map, List.getElem?_zipIdx, methods,
      Option.map_map, named, named', Function.comp_def, Nat.zero_add]
  have inScope : target.methods c.markers t' =
      (target.methods c.markers t).map fun method => (method.1, g method.1 method.2) := by
    rw [Target.methods, keyed, List.filter_map, Target.methods]
    congr 1
    refine List.filter_congr ?_
    rintro ⟨key, d⟩ -
    simp only [Function.comp_apply, scope]
  rw [Target.sites, Target.sites, known, known', Option.map_some, Option.map_some,
    Option.getD_some, Option.getD_some, inScope, List.flatMap_map]
  refine congrArg List.flatten (List.map_congr_left ?_)
  rintro ⟨key, d⟩ listed
  obtain ⟨owned, there⟩ := TypeDef.mem_keyedMethods.1 (List.mem_filter.1 listed).1
  have owned' := owned.trans named
  have found : before.findMethod? key = some d :=
    findMethod?_eq_some.2 ⟨t, by rw [owned']; exact known, there⟩
  exact congrArg (List.map fun h => (key, h)) (calls key d owned' found)

end Module

namespace Weave

open ReleaseWeaver.Module

variable {c : WeaveContext} {capability : Option TypeRef} {m m' after : Module}
  {entry : TargetReport} {t : TypeDef} {teardown : MethodKey} {outcome : WeaveOutcome}

/-- What the handle pass makes of the methods of a type whose plan keeps its teardown, be the type
a handle target or not. -/
theorem Rounds.findMethod?_handled {before : Module}
    (rounds : Rounds c (handlePass c) (Target.select before c.markers .trackHandles) before m')
    (known : before.findType? t.definitionName = some t) (isLocal : t.isLocal = true)
    (planned : requiredPlan c t before = .ok (.existing teardown)) {key : MethodKey}
    (owned : key.owner = t.definitionName) : m'.findMethod? key =
      (before.findMethod? key).map fun d =>
        d.rewritten c (c.insertions (Target.ofType? c.markers .trackHandles t) [] t key d) := by
  cases chosen : Target.ofType? c.markers .trackHandles t with
  | some target =>
    have named := (Target.typeName_of_ofType? chosen).1
    have known' : before.findType? target.typeName = some t := by
      rw [named]
      exact known
    exact rounds.findMethod?_handles (Target.nodup_select _ _ _)
      ((Target.mem_select_iff known').2 ⟨isLocal, chosen⟩) known' planned (owned.trans named.symm)
  | none =>
    have others := Target.ne_of_ofType?_none known chosen
    have same := rounds.findType?_idle (lawful_handles c) fun target listed same =>
      absurd same (others target listed)
    simp only [WeaveContext.insertions_none, MethodDef.rewritten_nil, Option.map_id']
    exact findMethod?_congr (by rw [owned]; exact same)

/-- What the command pass makes of the methods of a type, be it a command target or not. -/
theorem Rounds.findMethod?_commanded {cap : TypeRef} {t' : TypeDef}
    (rounds : Rounds c (commandPass c cap) (Target.select m' c.markers .releaseCommands) m' after)
    (known : m'.findType? t'.definitionName = some t') (isLocal : t'.isLocal = true)
    (planned : requiredPlan c t' m' = .ok (.existing teardown)) {key : MethodKey}
    (owned : key.owner = t'.definitionName) : after.findMethod? key =
      (m'.findMethod? key).map fun d => if key = teardown then
        (match Target.ofType? c.markers .releaseCommands t' with
          | some target => releasableGetters c cap m' target t'
          | none => []).foldl (fun d getter =>
            d.released (releaseProperty getter c.collaborators.contractRelease)) d
      else d := by
  cases chosen : Target.ofType? c.markers .releaseCommands t' with
  | some target =>
    have named := (Target.typeName_of_ofType? chosen).1
    have known' : m'.findType? target.typeName = some t' := by
      rw [named]
      exact known
    exact rounds.findMethod?_commands (Target.nodup_select _ _ _)
      ((Target.mem_select_iff known').2 ⟨isLocal, chosen⟩) known' planned (owned.trans named.symm)
  | none =>
    have others := Target.ne_of_ofType?_none known chosen
    have same := rounds.findType?_idle (lawful_commands c cap) fun target listed same =>
      absurd same (others target listed)
    simp only [List.foldl_nil, ite_self, Option.map_id']
    exact findMethod?_congr (by rw [owned]; exact same)

/-- Both passes together, for a type whose plan keeps its teardown. -/
theorem findMethod?_passes
    (bound : c.markers.hasFamily .releaseCommands = true →
      ∃ cap, Collaborators.resolveCapability m c.config = .ok cap)
    (handles : Rounds c (handlePass c) (Target.select (start c m) c.markers .trackHandles)
      (start c m) m')
    (commands : Rounds c (commandPass c (c.capability m))
      (Target.select m' c.markers .releaseCommands) m' after)
    (known : (start c m).findType? t.definitionName = some t) (isLocal : t.isLocal = true)
    (planned : requiredPlan c t (start c m) = .ok (.existing teardown)) {key : MethodKey}
    (owned : key.owner = t.definitionName) : after.findMethod? key =
      ((start c m).findMethod? key).map fun d => d.rewritten c (m.insertions c t key d) := by
  have kept := handles.keeps (lawful_handles c)
  obtain ⟨own, _, declared, _⟩ := ownTeardown?_of_requiredPlan planned
  obtain ⟨t', known', same⟩ := findType?_of_shapes kept.shapes known
  have named : t'.definitionName = t.definitionName := (mem_of_findType? known').2
  have chosen : Target.ofType? c.markers .releaseCommands t' =
      Target.ofType? c.markers .releaseCommands t := by
    show Target.ofType? c.markers .releaseCommands t'.shape =
      Target.ofType? c.markers .releaseCommands t.shape
    rw [same]
  have isLocal' : t'.isLocal = true := by
    show t'.shape.isLocal = true
    rw [same]
    exact isLocal
  have tracked := handles.findMethod?_handled known isLocal planned owned
  have released := commands.findMethod?_commanded (by rw [named]; exact known') isLocal'
    ((kept.requiredPlan known known').trans planned) (owned.trans named.symm)
  have getters : (match Target.ofType? c.markers .releaseCommands t' with
      | some target => releasableGetters c (c.capability m) m' target t'
      | none => []) = m.commandGetters c t := by
    rw [commandGetters, chosen]
    cases marked : Target.ofType? c.markers .releaseCommands t with
    | none => cases Collaborators.resolveCapability m c.config <;> rfl
    | some target =>
      have known'' : (start c m).findType? target.typeName = some t := by
        rw [(Target.typeName_of_ofType? marked).1]
        exact known
      have present : c.markers.hasFamily .releaseCommands = true := by
        by_contra absent
        have selected := (Target.mem_select_iff known'').2 ⟨isLocal, marked⟩
        rw [select_eq_nil (by simpa using absent)] at selected
        cases selected
      obtain ⟨cap, found⟩ := bound present
      rw [capability_eq found, found]
      exact kept.releasableGetters cap target known known'
  rw [released, tracked, Option.map_map, getters]
  congr 1
  funext d
  exact rewritten_releaseTarget declared _ d

section Finished

variable {capability : Option TypeRef} (finished : Finished c capability m outcome)
  (present : capability.isSome = true ↔ c.markers.hasFamily .releaseCommands = true)
  (collected : c.markers = MarkerTable.collect m c.config.markers)
  (reported : entry ∈ outcome.entries)

include finished present collected reported

/-- A run that reports on a target has gone through both passes, round by round. -/
theorem Finished.rounds : ∃ m',
    Rounds c (handlePass c) (Target.select (start c m) c.markers .trackHandles) (start c m) m' ∧
      Rounds c (commandPass c (c.capability m)) (Target.select m' c.markers .releaseCommands) m'
        outcome.module ∧
      (c.markers.hasFamily .releaseCommands = true →
        ∃ cap, Collaborators.resolveCapability m c.config = .ok cap) := by
  cases finished with
  | clash => cases reported
  | @woven _ _ m' after _ _ pass _ idle commands =>
    have settled := settled_handles collected capability
    refine ⟨m', prepared_eq_start (c := c) (m := m) present ▸ pass.rounds settled, ?_, fun marked => ?_⟩
    · cases capability with
      | none =>
        have absent : c.markers.hasFamily .releaseCommands = false := by
          rw [Bool.eq_false_iff]
          exact fun marked => by cases present.2 marked
        rw [idle rfl, select_eq_nil absent]
        exact .done
      | some cap =>
        obtain ⟨found, released⟩ := commands cap rfl
        rw [capability_eq found]
        exact released.rounds (settled_commands (pass.keeps settled))
    · obtain ⟨cap, same⟩ := Option.isSome_iff_exists.1 (present.2 marked)
      exact ⟨cap, (commands cap same).1⟩

/-- A target that a pass releases was selected before the passes, with a plan that keeps its
teardown. -/
theorem Finished.planned (released : entry.isReleased = true) : ∃ t teardown,
    (start c m).findType? entry.typeName = some t ∧
      entry.target ∈ Target.select (start c m) c.markers entry.family ∧
      requiredPlan c t (start c m) = .ok (.existing teardown) ∧
      entry.registrations = if entry.family = .trackHandles then
        (entry.target.sites c (start c m)).length else 0 := by
  have before := prepared_eq_start (c := c) (m := m) present
  cases finished with
  | clash => cases reported
  | woven pass reports _ commands =>
    have settled := settled_handles collected capability
    have kept := pass.keeps settled
    obtain tracked | ⟨cap, rfl, commanded⟩ := mem_entries_woven reports reported
    · obtain ⟨listed, t, teardown, known, planned, same⟩ :=
        pass.entry_released settled (Target.nodup_select _ _ _) tracked released
      have family : entry.family = .trackHandles := (of_mem_select listed).1
      rw [before] at known planned listed same
      refine ⟨t, teardown, known, family ▸ listed, planned, ?_⟩
      rw [if_pos family]
      exact congrArg TargetReport.registrations same
    · obtain ⟨listed, none, t', teardown, known', planned⟩ := (commands cap rfl).2.entry_released
        (settled_commands kept) (Target.nodup_select _ _ _) commanded released
      have family : entry.family = .releaseCommands := (of_mem_select listed).1
      rw [select_commands_of_shapes kept.shapes] at listed
      rw [before] at kept listed
      obtain ⟨t, known, _⟩ := findType?_of_shapes kept.shapes.symm known'
      refine ⟨t, teardown, known, family ▸ listed,
        (kept.requiredPlan known known').symm.trans planned, ?_⟩
      rw [none, if_neg (by rw [family]; exact Family.noConfusion)]

/-- A released target has a plan that keeps its teardown, and its entry counts the handle calls. -/
theorem Finished.released (released : entry.isReleased = true) :
    ∃ t teardown, (start c m).findType? entry.typeName = some t ∧ t.isLocal = true ∧
      Target.ofType? c.markers entry.family t = some entry.target ∧
      requiredPlan c t (start c m) = .ok (.existing teardown) ∧
      entry.registrations = (if entry.family = .trackHandles then
        (entry.target.sites c (start c m)).length else 0) ∧
      outcome.module.shapes = (start c m).shapes ∧
      ∀ key, key.owner = entry.typeName → outcome.module.findMethod? key =
        ((start c m).findMethod? key).map fun d => d.rewritten c (m.insertions c t key d) := by
  obtain ⟨t, teardown, known, listed, planned, registrations⟩ :=
    finished.planned present collected reported released
  obtain ⟨isLocal, marked⟩ := (Target.mem_select_iff known).1 listed
  obtain ⟨_, handles, commands, bound⟩ := finished.rounds present collected reported
  have shapes : outcome.module.shapes = (start c m).shapes :=
    (commands.keeps (lawful_commands c _)).shapes.trans (handles.keeps (lawful_handles c)).shapes
  have named : t.definitionName = entry.typeName := (mem_of_findType? known).2
  refine ⟨t, teardown, known, isLocal, marked, planned, registrations, shapes, fun key owned => ?_⟩
  exact findMethod?_passes bound handles commands (by rw [named]; exact known) isLocal planned
    (owned.trans named.symm)

end Finished

end Weave

/-- Every method of a released target is the method from before the passes with the insertions of
the target and without any other change. -/
theorem Module.weave_rewrites {m : Module} {config : Config} {entry : TargetReport}
    (reported : entry ∈ (m.weave config).entries) (released : entry.isReleased = true) :
    ∃ collaborators t, Collaborators.resolve m config = .ok collaborators ∧
      m.Rewrites ⟨config, collaborators, MarkerTable.collect m config.markers⟩ entry t
        (m.weave config).module := by
  obtain ⟨e, stopped⟩ | ⟨collaborators, capability, resolved, present, finished⟩ :=
    Weave.weave_cases m config
  · rw [stopped] at reported
    cases reported
  obtain ⟨t, teardown, known, _, marked, planned, registrations, shapes, each⟩ :=
    finished.released present rfl reported released
  obtain ⟨own, exit, declared, final⟩ := Weave.ownTeardown?_of_requiredPlan planned
  refine ⟨collaborators, t, resolved, ?_⟩
  exact
    { known := known
      marked := marked
      prepared := fun key _ => prepared_prepareTeardowns _ _ m key
      teardown := ⟨teardown, own, exit, declared, final⟩
      shells := fun key owned => by
        rw [each key owned, Option.map_map]
        congr 1
        funext d
        exact MethodDef.shell_rewritten _ _ d
      lines := fun key d owned found => by
        rw [each key owned, found, Option.map_some, Option.bind_some]
        exact MethodDef.lines?_rewritten _ WeaveContext.straight_insertions d
      registrations := registrations
      rescan := fun silent => sites_of_map known shapes each
        (fun key d => MethodDef.isInstanceWithBody_rewritten _ _ d) fun key d owned found =>
          MethodDef.handleCalls_rewritten _ WeaveContext.straight_insertions
            (silent key d owned found) d }

def Sample.trackedCommandEntry : TargetReport :=
  { typeName := "Sweep.Tests.Models.TrackedCommandModel", family := .trackHandles, wide := true,
    state := .released, registrations := 1, constructors := 1 }

open Sample in
theorem Module.weave_rewrites_trackedCommand :
    trackedCommandEntry ∈ (trackedCommand.weave Config.default).entries ∧
      ∃ collaborators t, Collaborators.resolve trackedCommand Config.default = .ok collaborators ∧
        trackedCommand.Rewrites ⟨Config.default, collaborators,
            MarkerTable.collect trackedCommand Config.default.markers⟩ trackedCommandEntry t
          (trackedCommand.weave Config.default).module := by
  have reported : trackedCommandEntry ∈ (trackedCommand.weave Config.default).entries := by
    decide +kernel
  exact ⟨reported, weave_rewrites reported rfl⟩

end ReleaseWeaver
