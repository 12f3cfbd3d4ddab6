import ReleaseWeaver.Proofs.Weave.Delegation

/-
  What a run leaves alone. A released handle target gets its tracking field, a released target
  without a teardown gets its override, the methods that overrides delegate to are opened, and
  bodies change where there is something to track or to release. Main statement: nothing else
  changes, over all types, members and bodies of the module.
-/

namespace ReleaseWeaver

namespace Module

/-- A method of the module's own to which an override that a run added delegates. -/
def Overridden (m after : Module) (d : Disposal) (key : MethodKey) : Prop :=
  ∃ new override call owner, m.findMethod? new = none ∧ after.findMethod? new = some override ∧
    override.baseCall? = some call ∧ after.resolve? call.declaring = some owner ∧
    owner.isLocal = true ∧ (owner.ownTeardown? d).map Prod.fst = some key

/-- An instance constructor or a method in scope of a handle target that is released, or the
teardown of a target that is released. -/
def Touches (m : Module) (c : WeaveContext) (report : WeaveReport) (key : MethodKey)
    (own : MethodDef) : Prop :=
  report.releases .trackHandles key.owner = true ∧
      (own.isConstructor = true ∧ own.isStatic = false ∨
        ∃ target ∈ Target.select m c.markers .trackHandles, ∃ t,
          m.findType? target.typeName = some t ∧ (key, own) ∈ target.methods c.markers t) ∨
    report.releasesAny key.owner = true ∧
      (m.declared? c.disposal key.owner).map Prod.fst = some key

end Module

namespace Weave

open ReleaseWeaver.Module

variable {c : WeaveContext} {m : Module} {key : MethodKey} {own : MethodDef} {name : String}
  {outcome : WeaveOutcome} {names : List String} {given : List (String × MethodKey)} {t : TypeDef}

/-- The methods that are opened are those that new overrides delegate to. -/
theorem Completed.overridden_iff (completed : Completed c m outcome)
    (run : Preparation c.disposal names m given (start c m)) :
    m.Overridden outcome.module c.disposal key ↔ m.opens (given.map Prod.snd) key = true := by
  have isLocal {name : String} {owner : TypeDef} (known : outcome.module.findType? name = some owner) :
      (m.findType? name).any TypeDef.isLocal = owner.isLocal := by
    obtain ⟨u, known', same⟩ := findType?_of_shapes completed.shapes.symm known
    rw [known', Option.any_some]
    show u.shape.isLocal = owner.shape.isLocal
    rw [same]
  rw [opens, Bool.and_eq_true, List.contains_iff_mem]
  constructor
  · rintro ⟨new, override, call, owner, fresh, found, calls, leads, own, declares⟩
    obtain ⟨ancestor, listed, next⟩ := completed.given_of_new run fresh found
    obtain ⟨override', teardown, owner', declared, known, own', calls', leads'⟩ :=
      completed.delegates run listed
    rw [← next] at declared
    have found' := (declared?_eq_some.1 declared).2
    cases found.symm.trans found'
    cases calls.symm.trans calls'
    cases leads.symm.trans leads'
    rw [own', Option.map_some, Option.some.injEq] at declares
    subst declares
    exact ⟨(isLocal known).trans own, List.mem_map_of_mem listed⟩
  · rintro ⟨own, listed⟩
    obtain ⟨⟨name, _⟩, inside, rfl⟩ := List.mem_map.1 listed
    obtain ⟨override, teardown, owner, declared, known, own', calls, leads⟩ :=
      completed.delegates run inside
    exact ⟨m.nextMethodKey name, override, _, owner, findMethod?_nextMethodKey m name,
      (declared?_eq_some.1 declared).2, calls, leads, (isLocal known).symm.trans own,
      by rw [own', Option.map_some]⟩

/-- An original method is the teardown of its type exactly if it was. -/
theorem declared?_start (run : Preparation c.disposal names m given (start c m))
    (found : m.findMethod? key = some own) :
    ((start c m).declared? c.disposal key.owner).map Prod.fst = some key ↔
      (m.declared? c.disposal key.owner).map Prod.fst = some key := by
  by_cases listed : key.owner ∈ given.map Prod.fst
  · -- A type that gets an override has had no teardown, and the override is no original method.
    obtain ⟨⟨_, ancestor⟩, inside, same⟩ := List.mem_map.1 listed
    obtain ⟨method, gives, declared⟩ := run.declared?_given inside
    obtain ⟨t, known, _, _, planned⟩ := gives.needed
    have absent := ((planTeardown_eq_synthesize known).1 planned).1
    dsimp only at same
    rw [← same, declared, absent]
    refine ⟨fun next => ?_, nofun⟩
    rw [Option.map_some, Option.some.injEq] at next
    rw [← next, findMethod?_nextMethodKey] at found
    cases found
  · rw [run.declared?_other listed, Option.map_map]
    rfl

/-- The original methods in scope of a target are those that were in scope. -/
theorem mem_methods_start (run : Preparation c.disposal names m given (start c m))
    (found : m.findMethod? key = some own) {target : Target} {t' : TypeDef} {d : MethodDef}
    (known : (start c m).findType? target.typeName = some t')
    (listed : (key, d) ∈ target.methods c.markers t') :
    ∃ t, m.findType? target.typeName = some t ∧ (key, own) ∈ target.methods c.markers t := by
  obtain ⟨keyed, inScope⟩ := List.mem_filter.1 listed
  obtain ⟨owned, there⟩ := TypeDef.mem_keyedMethods.1 keyed
  have owned' : key.owner = target.typeName := owned.trans (mem_of_findType? known).2
  have found' := run.findMethod?_old found
  rw [findMethod?_eq_some.2 ⟨t', owned' ▸ known, there⟩] at found'
  obtain ⟨t, knownT, there'⟩ := findMethod?_eq_some.1 found
  rw [owned'] at knownT
  refine ⟨t, knownT, List.mem_filter.2 ⟨TypeDef.mem_keyedMethods.2
    ⟨owned'.trans (mem_of_findType? knownT).2.symm, there'⟩, ?_⟩⟩
  rw [Option.some.inj found'] at inScope
  simpa using inScope

/-- Nothing goes into the original methods but where the targets are touched. -/
theorem inserted_untouched (collected : c.markers = MarkerTable.collect m c.config.markers)
    (run : Preparation c.disposal names m given (start c m)) (found : m.findMethod? key = some own)
    (untouched : ¬m.Touches c (reports c m) key own) (opens : Bool) :
    m.inserted c key (own.openedIf opens) = {} := by
  unfold Module.inserted
  split
  case h_2 => rfl
  next t known =>
  split
  case isFalse => rfl
  next accepted =>
  rw [Bool.and_eq_true, Option.isNone_iff_eq_none] at accepted
  have released {family : Family} {target : Target}
      (chosen : Target.ofType? c.markers family t = some target) :=
    releases_of_chosen collected known accepted.1 accepted.2 chosen
  -- A run in front is for instance constructors of handle targets, …
  have front : ((Target.ofType? c.markers .trackHandles t).isSome &&
      (own.openedIf opens).takesPrologue) = false := by
    rw [Bool.eq_false_iff, Ne, Bool.and_eq_true]
    rintro ⟨handled, takes⟩
    obtain ⟨target, chosen⟩ := Option.isSome_iff_exists.1 handled
    refine untouched (.inl ⟨(released chosen).2.2, .inl ?_⟩)
    rw [MethodDef.takesPrologue_openedIf] at takes
    simp_all [MethodDef.takesPrologue]
  -- … registrations are for methods in scope, …
  have after : ((Target.ofType? c.markers .trackHandles t).any fun target =>
      (target.methods c.markers t).any fun method => method.1 = key) = false := by
    rw [Bool.eq_false_iff, Ne, Option.any_eq_true]
    rintro ⟨target, chosen, inScope⟩
    obtain ⟨⟨_, d⟩, listed, same⟩ := List.any_eq_true.1 inScope
    obtain rfl := of_decide_eq_true same
    obtain ⟨selected, same, released⟩ := released chosen
    exact untouched (.inl ⟨released, .inr ⟨target, selected,
      mem_methods_start run found (same ▸ known) listed⟩⟩)
  -- … and releases are for the teardown of a target of either family.
  have last (isTeardown : (t.ownTeardown? c.disposal).any (fun method => method.1 = key) = true) :
      Target.ofType? c.markers .trackHandles t = none ∧ m.commandGetters c t = [] := by
    have declared : ((start c m).declared? c.disposal key.owner).map Prod.fst = some key := by
      obtain ⟨⟨_, d⟩, declared, same⟩ := (Option.any_eq_true _ _).1 isTeardown
      rw [declared?_of_known known, declared, Option.map_some, of_decide_eq_true same]
    have touched (released : ∃ family, (reports c m).releases family key.owner = true) : False :=
      untouched (.inr ⟨WeaveReport.releasesAny_iff.2 released, (declared?_start run found).1 declared⟩)
    have unmarked (family : Family) : Target.ofType? c.markers family t = none :=
      Option.eq_none_iff_forall_ne_some.2 fun target chosen =>
        touched ⟨family, (released chosen).2.2⟩
    exact ⟨unmarked _, commandGetters_of_none (unmarked _)⟩
  rw [insertions, WeaveContext.insertions]
  simp only [front, after, Bool.false_eq_true, if_false]
  split
  · next isTeardown =>
    obtain ⟨unmarked, getters⟩ := last isTeardown
    rw [unmarked, getters]
    rfl
  · rfl

/-- Those get an override that are released and declare no teardown. -/
theorem mem_given_start (run : Preparation c.disposal names m given (start c m))
    (named : ∀ name, name ∈ names ↔ (∃ t, m.findType? name = some t) ∧
      ∃ family, ∃ target ∈ Target.select m c.markers family, target.typeName = name)
    (known : m.findType? name = some t) : name ∈ given.map Prod.fst ↔
      (reports c m).releasesAny name = true ∧ t.ownTeardown? c.disposal = none := by
  rw [run.mem_given_iff, named, needsOverride_iff_fault known, declared?_of_known known,
    WeaveReport.releasesAny_iff]
  simp only [releases_iff]
  constructor
  · rintro ⟨⟨_, family, selected⟩, accepted, absent⟩
    exact ⟨⟨family, selected, accepted⟩, absent⟩
  · rintro ⟨⟨family, selected, accepted⟩, absent⟩
    exact ⟨⟨⟨t, known⟩, family, selected⟩, accepted, absent⟩

/-- What becomes of an original method. -/
theorem Completed.method_kept (completed : Completed c m outcome)
    (found : m.findMethod? key = some own) : ∃ own', outcome.module.findMethod? key = some own' ∧
      own' = { own with flags := own'.flags, body := own'.body } ∧
      (m.Overridden outcome.module c.disposal key → own'.flags = { own.flags with
        newSlot := false, isVirtual := true, reusesSlot := true, hidesBySignature := true }) ∧
      (¬m.Overridden outcome.module c.disposal key → own'.flags = own.flags) ∧
      (own'.body ≠ own.body → m.Touches c (reports c m) key own) := by
  obtain ⟨_, given, run, _, _⟩ := preparation_start c m
  have after := completed.findMethod? key
  rw [run.findMethod?_old found, Option.map_some] at after
  refine ⟨_, after, rfl, fun overridden => ?_, fun spared => ?_, fun changed => ?_⟩
  · rw [(completed.overridden_iff run).1 overridden]
    exact own.flags.opened_eq
  · rw [Bool.eq_false_iff.2 (mt (completed.overridden_iff run).2 spared)]
    rfl
  · by_contra untouched
    rw [inserted_untouched completed.weavable.bound.markers run found untouched,
      MethodDef.rewritten_nil] at changed
    exact changed rfl

/-- A type that no family releases stays as it was, but for methods that are opened. -/
theorem Completed.findType?_unreleased (completed : Completed c m outcome)
    (known : m.findType? name = some t) (unreleased : (reports c m).releasesAny name = false) :
    ∃ (t' : TypeDef) (opens : MethodKey → Bool), outcome.module.findType? name = some t' ∧
      t'.shape = t.shape ∧ t'.fields = t.fields ∧
      t'.methods = t.keyedMethods.map (fun method => method.2.openedIf (opens method.1)) ∧
      (t.isLocal = false → ∀ key, key.owner = name → opens key = false) := by
  obtain ⟨_, given, run, _, named⟩ := preparation_start c m
  obtain ⟨t', known', same⟩ := findType?_of_shapes run.shapes known
  obtain ⟨overrides, methods, count, _⟩ := run.keyedMethods known known'
  have idle (family : Family) : (reports c m).releases family name = false := by
    rw [Bool.eq_false_iff]
    exact fun released => Bool.eq_false_iff.1 unreleased (WeaveReport.releasesAny_iff.2 ⟨_, released⟩)
  have ungiven : name ∉ given.map Prod.fst := fun listed =>
    Bool.eq_false_iff.1 unreleased ((mem_given_start run named known).1 listed).1
  rw [if_neg ungiven, List.length_eq_zero_iff] at count
  rw [count, List.append_nil] at methods
  refine ⟨t', m.opens (given.map Prod.snd), (completed.findType?_idle idle).trans known', same, ?_, ?_,
    fun imported key owned => ?_⟩
  · have fields := fieldsOf_start c m name
    rw [Module.fieldsOf, Module.fieldsOf, known, known'] at fields
    exact Option.some.inj fields
  · rw [← t'.map_snd_keyedMethods, methods, List.map_map]
    rfl
  · rw [opens, owned, known, Option.any_some, imported, Bool.false_and]

/-- How many methods a type has in the end. -/
theorem Completed.length_methods (completed : Completed c m outcome)
    (known : m.findType? name = some t) : ∃ t', outcome.module.findType? name = some t' ∧
      t'.methods.length = t.methods.length + if (reports c m).releasesAny name &&
        (t.ownTeardown? c.disposal).isNone then 1 else 0 := by
  obtain ⟨_, given, run, _, named⟩ := preparation_start c m
  obtain ⟨u, knownU, _⟩ := findType?_of_shapes run.shapes known
  obtain ⟨t', known', _⟩ := findType?_of_shapes completed.keeps.shapes knownU
  obtain ⟨overrides, methods, count, _⟩ := run.keyedMethods known knownU
  have next : outcome.module.nextMethodKey name = (start c m).nextMethodKey name :=
    nextMethodKey_congr fun i => by rw [completed.findMethod?, Option.isSome_map]
  rw [nextMethodKey_of_findType? knownU, nextMethodKey_of_findType? known'] at next
  have lengths := congrArg List.length methods
  simp only [TypeDef.keyedMethods, List.length_append, List.length_map, List.length_zipIdx,
    count, mem_given_start run named known] at lengths
  refine ⟨t', known', ?_⟩
  rw [show t'.methods.length = u.methods.length from congrArg MethodKey.index next, lengths]
  simp only [Bool.and_eq_true, Option.isNone_iff_eq_none]

end Weave

/-- What a run over `m` that comes to its end leaves, and how little of it is new. -/
structure Module.Framed (m : Module) (c : WeaveContext) (report : WeaveReport) (after : Module) :
    Prop where
  /-- The name of the module, its references, and its properties. -/
  header : after.header = m.header
  /-- The types in their order, with all that they have but fields and methods. -/
  shapes : after.shapes = m.shapes
  imported : ∀ t ∈ m.types, t.isLocal = false → after.findType? t.definitionName = some t
  fields : ∀ t ∈ m.types, after.fieldsOf t.definitionName = some (t.fields ++
    if report.releases .trackHandles t.definitionName then [c.trackingField t] else [])
  methods : ∀ t ∈ m.types, ∃ t', after.findType? t.definitionName = some t' ∧
    t'.methods.length = t.methods.length +
      if report.releasesAny t.definitionName && (t.ownTeardown? c.disposal).isNone then 1 else 0
  /-- Of a method that was there nothing changes but flags and body, and these for a reason. A method
  that is overridden now has a slot to reuse, and takes no new one. -/
  kept : ∀ key own, m.findMethod? key = some own → ∃ own', after.findMethod? key = some own' ∧
    own' = { own with flags := own'.flags, body := own'.body } ∧
    (m.Overridden after c.disposal key → own'.flags = { own.flags with
      newSlot := false, isVirtual := true, reusesSlot := true, hidesBySignature := true }) ∧
    (¬m.Overridden after c.disposal key → own'.flags = own.flags) ∧
    (own'.body ≠ own.body → m.Touches c report key own)
  unreleased : ∀ t ∈ m.types, report.releasesAny t.definitionName = false →
    ∃ t', after.findType? t.definitionName = some t' ∧ t'.fields = t.fields ∧
      t'.methods.map MethodDef.body = t.methods.map MethodDef.body

/-- A run that comes to its end changes nothing but what its targets need. -/
theorem Module.weave_framed {m : Module} {config : Config} {report : WeaveReport}
    (ended : (m.weave config).result = .ok report) :
    ∃ collaborators, Collaborators.resolve m config = .ok collaborators ∧
      m.Framed ⟨config, collaborators, MarkerTable.collect m config.markers⟩ report
        (m.weave config).module := by
  obtain ⟨c, rfl, completed, rfl⟩ := Weave.completed_of_ok ended
  have bound := completed.weavable.bound
  refine ⟨c.collaborators, bound.collaborators, ?_⟩
  rw [← bound.markers]
  exact
    { header := completed.header
      shapes := completed.shapes
      imported := by
        intro t listed imported
        have known := findType?_of_mem listed
        have unreleased : (Weave.reports c m).releasesAny t.definitionName = false := by
          rw [Bool.eq_false_iff]
          intro released
          obtain ⟨family, released⟩ := WeaveReport.releasesAny_iff.1 released
          obtain ⟨⟨target, selected, same⟩, _⟩ := Weave.releases_iff.1 released
          rw [((Target.mem_select_iff (same ▸ known)).1 selected).1] at imported
          cases imported
        obtain ⟨t', opens, known', shape, fields, methods, closed⟩ :=
          completed.findType?_unreleased known unreleased
        have same : t'.methods = t.methods := by
          rw [methods, ← t.map_snd_keyedMethods]
          refine List.map_congr_left fun (key, d) keyed => ?_
          rw [closed imported key (TypeDef.mem_keyedMethods.1 keyed).1]
          rfl
        rw [known', TypeDef.eq_of_shape shape fields same]
      fields := fun t listed => completed.fieldsOf (findType?_of_mem listed)
      methods := fun t listed => completed.length_methods (findType?_of_mem listed)
      kept := fun key own found => completed.method_kept found
      unreleased := by
        intro t listed unreleased
        obtain ⟨t', opens, known', _, fields, methods, _⟩ :=
          completed.findType?_unreleased (findType?_of_mem listed) unreleased
        refine ⟨t', known', fields, ?_⟩
        rw [methods, ← t.map_snd_keyedMethods, List.map_map, List.map_map]
        rfl }

open Sample in
theorem Module.weave_framed_partlyRefused : ∃ report,
    (partlyRefused.weave Config.default).result = .ok report ∧
      ∃ collaborators, Collaborators.resolve partlyRefused Config.default = .ok collaborators ∧
        partlyRefused.Framed ⟨Config.default, collaborators,
            MarkerTable.collect partlyRefused Config.default.markers⟩ report
          (partlyRefused.weave Config.default).module := by
  obtain ⟨report, ended⟩ := weave_of_weavable weavable_partlyRefused
  exact ⟨report, ended, weave_framed ended⟩

end ReleaseWeaver
