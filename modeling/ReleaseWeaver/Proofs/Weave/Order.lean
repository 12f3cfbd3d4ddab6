import ReleaseWeaver.Code.Listing
import ReleaseWeaver.Proofs.Metadata.Reordered
import ReleaseWeaver.Proofs.Weave.Delegation

/-
  The order in which a module lists its types. Markers and collaborators are found by name, so two
  modules that differ in that order have the same targets, refused for the same reasons. The
  preparation gives the same types an override, and each override calls the nearest teardown above
  it, whichever came first. Main statement: runs over the two modules both come to their end or both
  fail, and in the end they have entered the same into their reports and leave the same types.
-/

namespace ReleaseWeaver

open ReleaseWeaver.Module

/-! ## What is looked up -/

namespace Module.Reordered

variable {m m' : Module} {d : Disposal} {name : String} (same : m.Reordered m')

include same

theorem planTeardown : m'.planTeardown = m.planTeardown := by
  funext d t
  simp only [Module.planTeardown, inheritedTeardown?, qualifiedName, same.ancestors,
    same.findMethod?]

theorem declared? : m'.declared? = m.declared? := by
  funext d name
  rw [Module.declared?, Module.declared?, same.findType?]

theorem needsOverride : m'.NeedsOverride d name ↔ m.NeedsOverride d name := by
  rw [NeedsOverride, NeedsOverride, same.findType?, same.isDisposable, same.planTeardown]

theorem opens {overridden overridden' : List MethodKey} {key : MethodKey}
    (listed : key ∈ overridden' ↔ key ∈ overridden) :
    m'.opens overridden' key = m.opens overridden key := by
  rw [Module.opens, Module.opens, same.findType?]
  congr 1
  rw [Bool.eq_iff_iff, List.contains_iff_mem, List.contains_iff_mem, listed]

theorem gives_unique {ancestor : MethodKey} {method method' : MethodDef}
    (gives : m.Gives d name ancestor method) (gives' : m'.Gives d name ancestor method') :
    method' = method := by
  obtain ⟨override, first, rfl⟩ := gives.override
  obtain ⟨override', first', rfl⟩ := gives'.override
  have overrides : m'.overrides? d = m.overrides? d := by
    funext other
    rw [overrides?, overrides?, same.declared?]
  rw [overrides, same.firstUp] at first'
  rw [first'.unique first, same.refAbove]

theorem isAssignable : m'.isAssignable = m.isAssignable := by
  funext t target
  exact reaches_congr (fun ref => by rw [same.resolve?]) target [] [t]

theorem resolveSymbol : m'.resolveSymbol = m.resolveSymbol := by
  funext symbol
  simp only [Module.resolveSymbol, requireReference, findReference?, same.references,
    same.findType?]

theorem resolve (config : Config) :
    Collaborators.resolve m' config = Collaborators.resolve m config := by
  simp only [Collaborators.resolve, same.resolveSymbol]

theorem resolveCapability (config : Config) :
    Collaborators.resolveCapability m' config = Collaborators.resolveCapability m config := by
  simp only [Collaborators.resolveCapability, same.resolveSymbol]

theorem contains_collect (names : MarkerNames) :
    (MarkerTable.collect m' names).contains = (MarkerTable.collect m names).contains := by
  funext carrier family
  rw [MarkerTable.contains, MarkerTable.contains, Bool.eq_iff_iff, List.contains_iff_mem,
    List.contains_iff_mem, MarkerTable.mem_collect, MarkerTable.mem_collect]
  simp only [same.types.mem_iff]

end Module.Reordered

/-- Contexts that differ in the order of their markers. -/
structure WeaveContext.Alike (c c' : WeaveContext) : Prop where
  config : c'.config = c.config
  collaborators : c'.collaborators = c.collaborators
  contains : c'.markers.contains = c.markers.contains

namespace WeaveContext

variable {c c' : WeaveContext} {m m' : Module}

theorem Bound.alike (same : m.Reordered m') (bound : c.Bound m) (bound' : c'.Bound m')
    (config : c'.config = c.config) : c.Alike c' := by
  refine ⟨config, ?_, ?_⟩
  · have resolved := bound'.collaborators
    rw [config, same.resolve, bound.collaborators] at resolved
    exact (Except.ok.inj resolved).symm
  · rw [bound.markers, bound'.markers, config, same.contains_collect]

namespace Alike

variable (alike : c.Alike c')

include alike

theorem disposal : c'.disposal = c.disposal := by
  rw [WeaveContext.disposal, WeaveContext.disposal, alike.config, alike.collaborators]

theorem trackingField : c'.trackingField = c.trackingField := by
  funext t
  rw [WeaveContext.trackingField, WeaveContext.trackingField, alike.config, alike.collaborators]

theorem ofType? : Target.ofType? c'.markers = Target.ofType? c.markers := by
  have members : c'.markers.marksMember = c.markers.marksMember := by
    funext family t
    cases family <;> simp only [MarkerTable.marksMember, alike.contains]
  funext family t
  rw [Target.ofType?, Target.ofType?, members, alike.contains]

theorem methods (target : Target) : target.methods c'.markers = target.methods c.markers := by
  funext t
  simp only [Target.methods, alike.contains]

theorem properties (target : Target) :
    target.properties c'.markers = target.properties c.markers := by
  funext t
  simp only [Target.properties, alike.contains]

end Alike

end WeaveContext

namespace Weave

variable {c c' : WeaveContext} {m m' : Module} {name : String} {family : Family} {target : Target}

section Readings

variable (alike : c.Alike c') (same : m.Reordered m')

include alike same

theorem requiredPlan_reordered (t : TypeDef) : requiredPlan c' t m' = requiredPlan c t m := by
  rw [requiredPlan, requiredPlan, same.isDisposable, same.planTeardown, alike.disposal]

theorem fault?_reordered : m'.fault? c' name = m.fault? c name := by
  simp only [fault?, same.findType?, requiredPlan_reordered alike same]

theorem clashes_reordered : m'.clashes c' name = m.clashes c name := by
  simp only [Module.clashes, same.findType?, same.declaresField, alike.trackingField]

theorem mem_select_reordered : target ∈ Target.select m' c'.markers family ↔
    target ∈ Target.select m c.markers family := by
  rw [Target.select, Target.select, alike.ofType?]
  exact ((same.types.filter _).filterMap _).mem_iff

theorem releasableGetters_reordered (capability : TypeRef) (t : TypeDef) :
    releasableGetters c' capability m' target t = releasableGetters c capability m target t := by
  simp only [releasableGetters, alike.properties, alike.collaborators, same.isAssignable,
    same.methodRef?]

/-- The entry of a target does not depend on the order. -/
theorem report_reordered (capability : TypeRef) (target : Target) :
    (handlePass c').report c' m' target = (handlePass c).report c m target ∧
      (commandPass c' capability).report c' m' target =
        (commandPass c capability).report c m target := by
  simp only [PassKind.report, handlePass, commandPass, Target.trackedEntry, Target.sites,
    same.findType?, requiredPlan_reordered alike same, releasableGetters_reordered alike same,
    alike.methods, alike.collaborators, alike.config, and_self]

end Readings

/-! ## The preparation -/

namespace Preparation

variable {d : Disposal} {names names' : List String} {given given' : List (String × MethodKey)}
  {n n' : Module} {ancestor ancestor' : MethodKey} {key : MethodKey}
  (run : Preparation d names m given n) (run' : Preparation d names' m' given' n')
  (same : m.Reordered m') (listed : ∀ name, name ∈ names' ↔ name ∈ names)

include run run' same listed

theorem names_reordered : name ∈ given'.map Prod.fst ↔ name ∈ given.map Prod.fst := by
  rw [run'.mem_given_iff, run.mem_given_iff, listed, same.needsOverride]

/-- The same types declare a teardown in the end, under the same keys. -/
theorem declares_reordered :
    (n'.declared? d name).map Prod.fst = (n.declared? d name).map Prod.fst := by
  by_cases inside : name ∈ given.map Prod.fst
  · obtain ⟨⟨_, ancestor⟩, entry, rfl⟩ := List.mem_map.1 inside
    obtain ⟨⟨_, ancestor'⟩, entry', named⟩ :=
      List.mem_map.1 ((run.names_reordered run' same listed).2 inside)
    dsimp only at named
    subst named
    obtain ⟨_, _, declared⟩ := run.declared?_given entry
    obtain ⟨_, _, declared'⟩ := run'.declared?_given entry'
    rw [declared, declared', same.nextMethodKey]
    rfl
  · have outside := (run.names_reordered run' same listed).not.2 inside
    rw [run.declared?_other inside, run'.declared?_other outside, same.declared?, Option.map_map,
      Option.map_map]
    rfl

/-- Each override calls the nearest teardown above it, so both times the same one. -/
theorem ancestor_reordered (acyclic : m.Acyclic)
    (sorted : names.Pairwise fun a b => m.depth a ≤ m.depth b)
    (sorted' : names'.Pairwise fun a b => m'.depth a ≤ m'.depth b) (entry : (name, ancestor) ∈ given)
    (entry' : (name, ancestor') ∈ given') : ancestor' = ancestor := by
  have first := run.nearest acyclic sorted entry
  have first' := run'.nearest (same.acyclic acyclic) sorted' entry'
  rw [same.firstUp] at first'
  simp only [run.declares_reordered run' same listed] at first'
  exact first'.unique first

theorem given_reordered (acyclic : m.Acyclic)
    (sorted : names.Pairwise fun a b => m.depth a ≤ m.depth b)
    (sorted' : names'.Pairwise fun a b => m'.depth a ≤ m'.depth b)
    (entry : (name, ancestor) ∈ given) : (name, ancestor) ∈ given' := by
  obtain ⟨⟨_, ancestor'⟩, entry', named⟩ :=
    List.mem_map.1 ((run.names_reordered run' same listed).2 (List.mem_map_of_mem entry))
  dsimp only at named
  subst named
  rwa [run.ancestor_reordered run' same listed acyclic sorted sorted' entry entry'] at entry'

/-- Preparations of the same types, each with shorter chains first, end in the same methods. -/
theorem findMethod?_reordered (acyclic : m.Acyclic)
    (sorted : names.Pairwise fun a b => m.depth a ≤ m.depth b)
    (sorted' : names'.Pairwise fun a b => m'.depth a ≤ m'.depth b) (key : MethodKey) :
    n'.findMethod? key = n.findMethod? key := by
  have entries (entry : String × MethodKey) : entry ∈ given' ↔ entry ∈ given :=
    ⟨run'.given_reordered run same.symm (fun name => (listed name).symm) (same.acyclic acyclic)
      sorted' sorted, run.given_reordered run' same listed acyclic sorted sorted'⟩
  by_cases added : ∃ entry ∈ given, key = m.nextMethodKey entry.1
  · obtain ⟨⟨name, ancestor⟩, entry, rfl⟩ := added
    obtain ⟨method, gives, declared⟩ := run.declared?_given entry
    obtain ⟨method', gives', declared'⟩ := run'.declared?_given ((entries _).2 entry)
    rw [same.nextMethodKey] at declared'
    rw [(declared?_eq_some.1 declared).2, (declared?_eq_some.1 declared').2,
      same.gives_unique gives gives']
  · have old : ∀ name ∈ given.map Prod.fst, key ≠ m.nextMethodKey name := by
      intro name inside next
      obtain ⟨entry, member, rfl⟩ := List.mem_map.1 inside
      exact added ⟨entry, member, next⟩
    have old' : ∀ name ∈ given'.map Prod.fst, key ≠ m'.nextMethodKey name := by
      intro name inside
      rw [same.nextMethodKey]
      exact old name ((run.names_reordered run' same listed).1 inside)
    have overridden : key ∈ given'.map Prod.snd ↔ key ∈ given.map Prod.snd := by
      simp only [List.mem_map, entries]
    rw [run.findMethod?_other old, run'.findMethod?_other old', same.findMethod?,
      same.opens overridden]

end Preparation

section Runs

variable (alike : c.Alike c') (same : m.Reordered m')

include alike same

theorem start_reordered (acyclic : m.Acyclic) : (start c m).Reordered (start c' m') := by
  obtain ⟨names, given, run, sorted, among⟩ := preparation_start c m
  obtain ⟨names', given', run', sorted', among'⟩ := preparation_start c' m'
  rw [alike.disposal] at run'
  have listed (name : String) : name ∈ names' ↔ name ∈ names := by
    simp only [among, among', same.findType?, mem_select_reordered alike same]
  have headers : (start c' m').references = (start c m).references := by
    have references := congrArg (fun header => header.2.1) (header_start c m)
    have references' := congrArg (fun header => header.2.1) (header_start c' m')
    exact references'.trans (same.references.trans references.symm)
  refine same.changed run.shapes run'.shapes headers (fun name => ?_)
    (run.findMethod?_reordered run' same listed acyclic sorted sorted')
  rw [fieldsOf_start, fieldsOf_start, same.fieldsOf]

/-- Nothing stands against a run whatever the order. -/
theorem weavable_reordered (weavable : Weavable c m) (bound : c'.Bound m') : Weavable c' m' where
  bound := bound
  free := fun target listed accepted => by
    rw [mem_select_reordered alike same] at listed
    rw [fault?_reordered alike same] at accepted
    rw [clashes_reordered alike same]
    exact weavable.free target listed accepted

end Runs

/-- An entry is found under the name and the family of its target. -/
theorem find?_reports {entry : TargetReport} : (reports c m).find? name family = some entry ↔
    ∃ target ∈ Target.select m c.markers family, target.typeName = name ∧
      entry = (c.pass m family).report c (start c m) target := by
  have about {target : Target} {f : Family} (selected : target ∈ Target.select m c.markers f) :
      ((c.pass m f).report c (start c m) target).family = f ∧
        ((c.pass m f).report c (start c m) target).typeName = target.typeName := by
    have same := target_report c m f target
    exact ⟨(congrArg Target.family same).trans (of_mem_select selected).1,
      congrArg Target.typeName same⟩
  have only (entry : TargetReport) (found : (reports c m).find? name family = some entry) :
      ∃ target ∈ Target.select m c.markers family, target.typeName = name ∧
        entry = (c.pass m family).report c (start c m) target := by
    have fits := List.find?_some found
    rw [Bool.and_eq_true, decide_eq_true_eq, beq_iff_eq] at fits
    obtain ⟨f, _, target, selected, rfl⟩ := mem_reports (List.mem_of_find?_eq_some found)
    obtain ⟨sort, named⟩ := about selected
    obtain rfl : f = family := sort.symm.trans fits.1
    exact ⟨target, selected, named.symm.trans fits.2, rfl⟩
  refine ⟨only entry, ?_⟩
  rintro ⟨target, selected, rfl, rfl⟩
  obtain ⟨sort, named⟩ := about selected
  have listed : (c.pass m family).report c (start c m) target ∈ (reports c m).targets :=
    List.mem_flatMap.2 ⟨family, mem_families selected, List.mem_map_of_mem selected⟩
  cases found : (reports c m).find? target.typeName family with
  | none =>
    have unfit := List.find?_eq_none.1 found _ listed
    simp [sort, named] at unfit
  | some entry =>
    obtain ⟨target', selected', named', rfl⟩ := only entry found
    rw [List.inj_on_of_nodup_map (Target.nodup_select m c.markers family) selected' selected named']

/-! ## The end of a run -/

section End

variable {outcome outcome' : WeaveOutcome} {key : MethodKey} {d : MethodDef}
  (alike : c.Alike c') (same : m.Reordered m') (acyclic : m.Acyclic)

include alike same acyclic

/-- Each family enters the same about each type. -/
theorem find?_reports_reordered :
    (reports c' m').find? name family = (reports c m).find? name family := by
  have begins := start_reordered alike same acyclic
  have capability : c'.capability m' = c.capability m := by
    rw [WeaveContext.capability, WeaveContext.capability, alike.config, same.resolveCapability]
  have entry (target : Target) : (c'.pass m' family).report c' (start c' m') target =
      (c.pass m family).report c (start c m) target := by
    obtain ⟨handles, commands⟩ := report_reordered alike begins (c.capability m) target
    cases family with
    | trackHandles => exact handles
    | releaseCommands =>
      rw [WeaveContext.pass, WeaveContext.pass, capability]
      exact commands
  refine Option.ext fun found => ?_
  simp only [find?_reports, mem_select_reordered alike same, entry]

/-- The same goes into each method. -/
theorem inserted_reordered : m'.inserted c' key d = m.inserted c key d := by
  have begins := start_reordered alike same acyclic
  have getters : m'.commandGetters c' = m.commandGetters c := by
    funext t
    simp only [commandGetters, same.resolveCapability, alike.config, alike.ofType?,
      releasableGetters_reordered alike begins]
  simp only [Module.inserted, insertions, WeaveContext.insertions, begins.findType?,
    fault?_reordered alike same, getters, alike.ofType?, alike.methods, alike.trackingField,
    alike.collaborators, alike.disposal]

theorem Completed.reordered (completed : Completed c m outcome)
    (completed' : Completed c' m' outcome') : outcome.module.Reordered outcome'.module := by
  have references : outcome'.module.references = outcome.module.references := by
    have kept := congrArg (fun header => header.2.1) completed.header
    have kept' := congrArg (fun header => header.2.1) completed'.header
    exact kept'.trans (same.references.trans kept.symm)
  refine same.changed completed.shapes completed'.shapes references (fun name => ?_) fun key => ?_
  · have releases : (reports c' m').releases .trackHandles name =
        (reports c m).releases .trackHandles name := by
      rw [Bool.eq_iff_iff, releases_iff, releases_iff]
      simp only [mem_select_reordered alike same, fault?_reordered alike same]
    cases known : m.findType? name with
    | none =>
      have known' : m'.findType? name = none := by rw [same.findType?, known]
      rw [Module.fieldsOf, Module.fieldsOf, unknown_of_shapes completed.shapes known,
        unknown_of_shapes completed'.shapes known']
    | some t =>
      have known' : m'.findType? name = some t := by rw [same.findType?, known]
      rw [completed.fieldsOf known, completed'.fieldsOf known', releases, alike.trackingField]
  · have bodies : Body.rewritten c' = Body.rewritten c := by
      funext e b
      simp only [Body.rewritten, alike.collaborators, alike.config]
    have rewrites : MethodDef.rewritten c' = MethodDef.rewritten c := by
      funext e d
      rw [MethodDef.rewritten, MethodDef.rewritten, bodies]
    rw [completed.findMethod?, completed'.findMethod?,
      (start_reordered alike same acyclic).findMethod?, rewrites]
    simp only [inserted_reordered alike same acyclic]

end End

end Weave

/-- Two runs have done the same, whatever the order of the types: what they have entered about each
type, and the types that they leave, with the flags and the listing of each method. -/
structure WeaveOutcome.Agrees (o o' : WeaveOutcome) : Prop where
  entries : ∀ report report', o.result = .ok report → o'.result = .ok report' →
    ∀ typeName family, report'.find? typeName family = report.find? typeName family
  types : o.module.Reordered o'.module
  flags : ∀ key, (o'.module.findMethod? key).map MethodDef.flags =
    (o.module.findMethod? key).map MethodDef.flags
  listings : ∀ key, ((o'.module.findMethod? key).bind MethodDef.body).map Body.listing =
    ((o.module.findMethod? key).bind MethodDef.body).map Body.listing

/-- The order of the types decides neither whether a run comes to its end nor what it does. -/
theorem Module.weave_reordered {m m' : Module} (same : m.Reordered m') (acyclic : m.Acyclic)
    (config : Config) :
    (m'.weave config).result.isOk = (m.weave config).result.isOk ∧
      ((m.weave config).result.isOk = true → (m.weave config).Agrees (m'.weave config)) := by
  have half {m m' : Module} (same : m.Reordered m') (ends : m.weavable config = true) :
      m'.weavable config = true := by
    obtain ⟨c, rfl, weavable⟩ := weavable_iff.1 ends
    let c' : WeaveContext := { c with markers := MarkerTable.collect m' c.config.markers }
    have alike : c.Alike c' := ⟨rfl, rfl, by
      rw [weavable.bound.markers]
      exact same.contains_collect c.config.markers⟩
    have bound : c'.Bound m' := ⟨by
      rw [same.resolve]
      exact weavable.bound.collaborators, rfl, fun marked => by
      rw [same.resolveCapability]
      refine weavable.bound.capability ?_
      rw [MarkerTable.hasFamily_iff, ← alike.contains, ← MarkerTable.hasFamily_iff, marked]⟩
    exact weavable_iff.2 ⟨c', rfl, Weave.weavable_reordered alike same weavable bound⟩
  rw [weave_isOk, weave_isOk]
  refine ⟨Bool.eq_iff_iff.2 ⟨half same.symm, half same⟩, fun ends => ?_⟩
  obtain ⟨c, rfl, weavable⟩ := weavable_iff.1 ends
  obtain ⟨c', config', weavable'⟩ := weavable_iff.1 (half same ends)
  have alike := weavable.bound.alike same weavable'.bound config'
  have completed := weavable.completed
  have completed' := weavable'.completed
  rw [config'] at completed'
  have types := completed.reordered alike same acyclic completed'
  refine ⟨fun report report' ended ended' typeName family => ?_, types, ?_, ?_⟩
  · cases completed.result.symm.trans ended
    cases completed'.result.symm.trans ended'
    exact Weave.find?_reports_reordered alike same acyclic
  · intro key
    rw [types.findMethod?]
  · intro key
    rw [types.findMethod?]

/-- The module with its types in the opposite order. -/
def Module.reversed (m : Module) : Module :=
  { m with
    types := m.types.reverse
    names_nodup := by
      rw [List.map_reverse, List.nodup_reverse]
      exact m.names_nodup }

theorem Module.reordered_reversed (m : Module) : m.Reordered m.reversed :=
  ⟨rfl, m.types.reverse_perm⟩

open Sample in
theorem Module.weave_reordered_leafBeforeMid :
    leafBeforeMid.Reordered leafBeforeMid.reversed ∧ leafBeforeMid.Acyclic ∧
      (leafBeforeMid.weave Config.default).result.isOk = true ∧
      (leafBeforeMid.reversed.weave Config.default).result.isOk = true ∧
      (leafBeforeMid.weave Config.default).Agrees
        (leafBeforeMid.reversed.weave Config.default) := by
  obtain ⟨acyclic, ends⟩ :
      leafBeforeMid.Acyclic ∧ leafBeforeMid.weavable Config.default = true := by decide +kernel
  have same := leafBeforeMid.reordered_reversed
  rw [← weave_isOk] at ends
  obtain ⟨both, agrees⟩ := weave_reordered same acyclic Config.default
  exact ⟨same, acyclic, ends, both.trans ends, agrees ends⟩

end ReleaseWeaver
