import ReleaseWeaver.Proofs.Weave.Final

/-
  What the overrides that a run adds delegate to. An override calls the teardown of a type above it
  first of all, whatever a pass puts behind that call, and each method that is new in the end is
  such an override. Main statement: where no type is above itself, the call leads to the nearest
  type above that declares a teardown in the end, whatever the order of the types and the markers.
-/

namespace ReleaseWeaver

/-! ## Calls of a base teardown -/

/-- The first two lines of a body stay the first two, unless there is a run in front of them. -/
theorem Insertions.applied_first {e : Insertions} {site : Instr → Bool} {l l' : Handle × Instr}
    (front : e.front = []) (silent : site l.2 = false) (straight : l.2.Straight)
    (straight' : l'.2.Straight) (rest : List (Handle × Instr)) :
    ∃ more, e.applied site (l :: l' :: rest) = l :: l' :: more := by
  have fronted : Lines.numbered (l :: l' :: rest).length e.front ++ l :: l' :: rest =
      l :: l' :: rest := by
    rw [front]
    rfl
  have registered : ∃ more, Lines.withAfterEach site e.after (l :: l' :: rest).length
      (l :: l' :: rest) = [l, l'] ++ more := by
    rw [Lines.withAfterEach, if_neg (by rw [silent]; exact Bool.false_ne_true), Lines.withAfterEach]
    split <;> exact ⟨_, rfl⟩
  obtain ⟨more, registered⟩ := registered
  have heads : ∀ head ∈ [l, l'], head.2.Straight := by
    intro head listed
    obtain rfl | listed := List.mem_cons.1 listed
    · exact straight
    · rw [List.mem_singleton.1 listed]
      exact straight'
  unfold applied
  dsimp only
  rw [fronted, registered, Lines.withBeforeExit_append_straight heads]
  exact ⟨_, rfl⟩

namespace MethodDef

/-- The method that a body calls on its own object first of all. -/
def baseCall? (d : MethodDef) : Option MethodRef :=
  match d.body.map Body.instrs with
  | some (.ldarg 0 :: .invoke call false :: _) => some call
  | _ => none

theorem baseCall?_overrideVia (d : MethodDef) (declaring : TypeRef) :
    (d.overrideVia declaring).baseCall? = some (d.refIn declaring) := rfl

/-- Nothing goes in front of the call if nothing goes in front of the body. -/
theorem baseCall?_rewritten {d : MethodDef} {call : MethodRef} (c : WeaveContext) {e : Insertions}
    (front : e.front = []) (straight : ∀ i ∈ e.last, i.target? = none)
    (calls : d.baseCall? = some call) : (d.rewritten c e).baseCall? = some call := by
  unfold baseCall? at calls
  split at calls
  case h_2 => cases calls
  next call' rest begins =>
    cases calls
    obtain ⟨b, body, instrs⟩ := Option.map_eq_some_iff.1 begins
    obtain ⟨l, lines, split, this, lines'⟩ := List.map_eq_cons_iff.1 instrs
    obtain ⟨l', more, split', invokes, _⟩ := List.map_eq_cons_iff.1 lines'
    have straight₀ : l.2.Straight := by
      rw [this]
      exact ⟨rfl, rfl, rfl⟩
    have straight₁ : l'.2.Straight := by
      rw [invokes]
      exact ⟨rfl, rfl, rfl⟩
    have silent : l.2.isHandleCall c.collaborators.contract c.config.handleCallFragment = false := by
      rw [this]
      rfl
    obtain ⟨further, applied⟩ := Insertions.applied_first front silent straight₀ straight₁ more
    have after : (b.rewritten c e).instrs = .ldarg 0 :: .invoke call false :: further.map Prod.snd := by
      rw [Body.instrs, Body.lines_rewritten c straight, split, split', applied, List.map_cons,
        List.map_cons, this, invokes]
    rw [baseCall?, rewritten, body, Option.map_some, Option.map_some, after]
    rfl

end MethodDef

/-! ## What goes into a teardown -/

namespace Weave

open ReleaseWeaver.Module

variable {c : WeaveContext} {m : Module} {key : MethodKey} {d : MethodDef} {name : String}
  {outcome : WeaveOutcome}

theorem straight_all_inserted : ∀ i ∈ (m.inserted c key d).all, i.Straight := by
  unfold Module.inserted
  split
  · split
    · exact WeaveContext.straight_all_insertions
    · nofun
  · nofun

theorem straight_inserted : ∀ i ∈ (m.inserted c key d).last, i.target? = none := fun i listed =>
  (straight_all_inserted i (List.mem_append_right _ (List.mem_append_right _ listed))).target

/-- Only constructors get a run in front. -/
theorem front_inserted (plain : d.isConstructor = false) : (m.inserted c key d).front = [] := by
  have fronted (t : TypeDef) : (m.insertions c t key d).front = [] := by
    have unfronted : d.takesPrologue = false := by
      rw [MethodDef.takesPrologue, plain, Bool.false_and, Bool.false_and]
    simp only [Module.insertions, WeaveContext.insertions, unfronted, Bool.and_false,
      Bool.false_eq_true, if_false]
  unfold Module.inserted
  split
  · split
    · exact fronted _
    · rfl
  · rfl

theorem isConstructor_of_isTeardown {disposal : Disposal} (teardown : disposal.isTeardown d = true) :
    d.isConstructor = false := by
  simp only [Disposal.isTeardown, Bool.and_eq_true, Bool.not_eq_true'] at teardown
  exact teardown.1.2

/-- What a type declares in the end is what it declares when the passes start, as they rewrite
it. -/
theorem Completed.declared? (completed : Completed c m outcome) (name : String) :
    outcome.module.declared? c.disposal name = ((start c m).declared? c.disposal name).map fun own =>
      (own.1, own.2.rewritten c (m.inserted c own.1 own.2)) :=
  declared?_of_map (g := fun key d => d.rewritten c (m.inserted c key d))
    (fun key _ => completed.findMethod? key) fun _ _ => rfl

/-! ## New methods -/

/-- What a run gives to a type calls the teardown that it overrides, which the reference of the
call leads to. -/
theorem Completed.delegates {names : List String} {given : List (String × MethodKey)}
    {ancestor : MethodKey} (completed : Completed c m outcome)
    (run : Preparation c.disposal names m given (start c m)) (listed : (name, ancestor) ∈ given) :
    ∃ override own owner,
      outcome.module.declared? c.disposal name = some (m.nextMethodKey name, override) ∧
      outcome.module.findType? ancestor.owner = some owner ∧
      owner.ownTeardown? c.disposal = some (ancestor, own) ∧
      override.baseCall? = some (own.refIn (m.refAbove name ancestor.owner)) ∧
      outcome.module.resolve? (m.refAbove name ancestor.owner) = some owner := by
  obtain ⟨own, declared, override⟩ := run.delegates listed
  obtain ⟨_, gives, _⟩ := run.declared?_given listed
  have declared' := completed.declared? ancestor.owner
  have override' := completed.declared? name
  rw [declared, Option.map_some] at declared'
  rw [override, Option.map_some] at override'
  obtain ⟨owner, known, own'⟩ := Option.bind_eq_some_iff.1 declared'
  refine ⟨_, _, owner, override', known, own', ?_, ?_⟩
  · obtain ⟨teardown, found⟩ := declared?_eq_some.1 override
    have here := teardown.here
    rw [found, Option.map_some] at here
    exact MethodDef.baseCall?_rewritten c
      (front_inserted (isConstructor_of_isTeardown (Option.some.inj here))) straight_inserted
      (MethodDef.baseCall?_overrideVia own _)
  · obtain ⟨k, there⟩ := gives.above
    have leads := resolve?_refAbove there gives.strict
    have shaped := congrArg (Option.map TypeDef.definitionName)
      (resolve?_of_shapes completed.shapes (m.refAbove name ancestor.owner))
    rw [Option.map_map, Option.map_map] at shaped
    obtain ⟨u, resolved, named⟩ := Option.map_eq_some_iff.1 (shaped.trans leads)
    have known' : outcome.module.findType? ancestor.owner = some u := by
      unfold resolve? at resolved
      split at resolved
      · cases resolved
      · rw [← show u.definitionName = ancestor.owner from named]
        exact findType?_of_mem (mem_of_findType? resolved).1
    rw [resolved, ← known, known']

/-- A method that is new in the end is an override that its type was given. -/
theorem Completed.given_of_new {names : List String} {given : List (String × MethodKey)}
    {method : MethodDef} (completed : Completed c m outcome)
    (run : Preparation c.disposal names m given (start c m)) (new : m.findMethod? key = none)
    (found : outcome.module.findMethod? key = some method) :
    ∃ ancestor, (key.owner, ancestor) ∈ given ∧ key = m.nextMethodKey key.owner := by
  by_contra old
  rw [completed.findMethod? key, run.findMethod?_other, new] at found
  · cases found
  · rintro name listed rfl
    obtain ⟨⟨_, ancestor⟩, inside, rfl⟩ := List.mem_map.1 listed
    exact old ⟨ancestor, inside, rfl⟩

/-- A target that needs an override has a new method in the end. -/
theorem Completed.new_of_needed {family : Family} (completed : Completed c m outcome)
    {target : Target} (listed : target ∈ Target.select m c.markers family)
    (needed : m.NeedsOverride c.disposal target.typeName) :
    ∃ method, outcome.module.findMethod? (m.nextMethodKey target.typeName) = some method := by
  obtain ⟨names, given, run, _, named⟩ := preparation_start c m
  have known := (of_mem_select listed).2
  obtain ⟨⟨_, ancestor⟩, inside, same⟩ := List.mem_map.1
    (run.mem_given_iff.2 ⟨(named _).2 ⟨known, family, target, listed, rfl⟩, needed⟩)
  obtain ⟨override, _, _, declared, _⟩ := completed.delegates run inside
  exact ⟨override, same ▸ (declared?_eq_some.1 declared).2⟩

end Weave

/-! ## The nearest teardown -/

namespace Module

variable {m : Module} {d : Disposal} {t : TypeDef} {key : MethodKey} {name : String}

/-- The nearest type above that declares a teardown is the owner of the first teardown. -/
theorem find?_of_firstUp (acyclic : m.Acyclic) (known : m.findType? name = some t)
    (first : m.FirstUp (fun other =>
      if other = name then none else (m.declared? d other).map Prod.fst) name key) :
    ∃ owner, m.findType? key.owner = some owner ∧
      ((m.ancestors t).drop 1).find? (fun a => (a.ownTeardown? d).isSome) = some owner := by
  let declarer (other : String) : Option TypeDef := if other = name then none else
    (m.findType? other).bind (Option.guard fun a => (a.ownTeardown? d).isSome)
  obtain ⟨k, other, there, found, nothing⟩ := first
  dsimp only at found nothing
  have ne : other ≠ name := by
    rintro rfl
    rw [if_pos rfl] at found
    cases found
  rw [if_neg ne] at found
  obtain ⟨⟨_, own⟩, declared, rfl⟩ := Option.map_eq_some_iff.1 found
  obtain ⟨owner, knownO, own'⟩ := Option.bind_eq_some_iff.1 declared
  have owned := (declared?_eq_some.1 declared).1.owned
  refine ⟨owner, owned ▸ knownO, ?_⟩
  have firstD : m.FirstUp declarer name owner := by
    refine ⟨k, other, there, ?_, fun j before b reached => ?_⟩
    · simp only [declarer, if_neg ne, knownO, Option.bind_some, Option.guard, own',
        Option.isSome_some, if_true]
    · by_cases here : b = name
      · exact if_pos here
      · have none := nothing j before b reached
        rw [if_neg here, Option.map_eq_none_iff] at none
        simp only [declarer, if_neg here]
        cases knownB : m.findType? b with
        | none => rfl
        | some u =>
          rw [declared?_of_known knownB] at none
          simp only [Option.bind_some, Option.guard, none, Option.isSome_none, Bool.false_eq_true,
            if_false]
  have chain := (findSome?_drop_ancestors known (if_pos rfl)).2 firstD
  rw [← List.findSome?_guard, ← chain]
  refine findSome?_congr fun a above => ?_
  obtain ⟨j, there⟩ := List.mem_iff_getElem?.1 above
  have strict : a.definitionName ≠ name := by
    rintro same
    rw [List.getElem?_drop, ancestors, getElem?_baseChain] at there
    split at there
    · have grounded := acyclic_iff.1 acyclic t (mem_of_findType? known).1
      refine grounded.above_ne known j ?_
      rw [above_of_known known, Nat.add_comm, there, Option.map_some, same]
    · cases there
  have listed := mem_types_of_ancestors (mem_of_findType? known).1 (List.mem_of_mem_drop above)
  simp only [declarer, if_neg strict, findType?_of_mem listed, Option.bind_some]

/-- An override of a type calls the teardown of the nearest type above that declares one. -/
def DelegatesUp (m : Module) (d : Disposal) (t : TypeDef) (override : MethodDef) : Prop :=
  ∃ call owner key own, override.baseCall? = some call ∧
    m.resolve? call.declaring = some owner ∧
    ((m.ancestors t).drop 1).find? (fun a => (a.ownTeardown? d).isSome) = some owner ∧
    owner.ownTeardown? d = some (key, own) ∧ call = own.refIn call.declaring

/-- A method that a run adds to a module without a cycle is an override of the nearest teardown
above its type, as the run leaves the module. -/
theorem weave_delegates {config : Config} {report : WeaveReport} {method : MethodDef}
    (acyclic : m.Acyclic) (ended : (m.weave config).result = .ok report)
    (new : m.findMethod? key = none) (found : (m.weave config).module.findMethod? key = some method) :
    ∃ collaborators t, Collaborators.resolve m config = .ok collaborators ∧
      (m.weave config).module.findType? key.owner = some t ∧
      t.ownTeardown? ⟨collaborators.contract, config.releaseMethod⟩ = some (key, method) ∧
      (m.weave config).module.DelegatesUp ⟨collaborators.contract, config.releaseMethod⟩ t
        method := by
  obtain ⟨c, rfl, completed, _⟩ := Weave.completed_of_ok ended
  obtain ⟨names, given, run, sorted, _⟩ := Weave.preparation_start c m
  obtain ⟨ancestor, listed, next⟩ := completed.given_of_new run new found
  obtain ⟨override, own, owner, declared, knownO, own', calls, leads⟩ :=
    completed.delegates run listed
  rw [← next] at declared
  obtain ⟨t, known, declared'⟩ := Option.bind_eq_some_iff.1 declared
  have same : override = method := by
    have found' := (declared?_eq_some.1 declared).2
    rw [found] at found'
    exact (Option.some.inj found').symm
  subst same
  refine ⟨c.collaborators, t, completed.weavable.bound.collaborators, known, declared',
    _, owner, ancestor, own, calls, leads, ?_, own', rfl⟩
  have first := run.nearest acyclic sorted listed
  rw [← firstUp_of_shapes completed.shapes] at first
  have declares (other : String) : ((m.weave c.config).module.declared? c.disposal other).map
      Prod.fst = ((Weave.start c m).declared? c.disposal other).map Prod.fst := by
    rw [completed.declared?, Option.map_map]
    rfl
  simp only [← declares] at first
  obtain ⟨owner', knownO', nearest⟩ :=
    find?_of_firstUp (acyclic.of_shapes completed.shapes) known first
  rw [knownO] at knownO'
  exact (Option.some.inj knownO') ▸ nearest

end Module

/-- A handle target that is declared before the handle target that it extends. -/
def Sample.leafBeforeMid : Module :=
  match Scenario.leafDeclaredBeforeMid.run baseModule with
  | .ok _ m | .error _ m => m

open Sample in
theorem Module.weave_delegates_leafBeforeMid :
    let outcome := leafBeforeMid.weave Config.default
    let key : MethodKey := ⟨"Sweep.Tests.Models.LeafTrackedModel", 1⟩
    ∃ report method, leafBeforeMid.Acyclic ∧ outcome.result = .ok report ∧
      leafBeforeMid.findMethod? key = none ∧ outcome.module.findMethod? key = some method ∧
      ∃ collaborators t, Collaborators.resolve leafBeforeMid Config.default = .ok collaborators ∧
        outcome.module.findType? key.owner = some t ∧
        t.ownTeardown? ⟨collaborators.contract, Config.default.releaseMethod⟩ = some (key, method) ∧
        outcome.module.DelegatesUp ⟨collaborators.contract, Config.default.releaseMethod⟩ t
          method := by
  intro outcome key
  obtain ⟨acyclic, ends, new, next, needed, listed⟩ : leafBeforeMid.Acyclic ∧
      leafBeforeMid.weavable Config.default = true ∧
      (leafBeforeMid.findMethod? key).isNone = true ∧
      leafBeforeMid.nextMethodKey key.owner = key ∧
      (Collaborators.resolve leafBeforeMid Config.default).toOption.any (fun found =>
        leafBeforeMid.NeedsOverride ⟨found.contract, Config.default.releaseMethod⟩ key.owner) = true ∧
      ⟨key.owner, .trackHandles, false⟩ ∈ Target.select leafBeforeMid
        (MarkerTable.collect leafBeforeMid Config.default.markers) .trackHandles := by
    decide +kernel
  obtain ⟨c, same, weavable⟩ := weavable_iff.1 ends
  have completed := weavable.completed
  have bound := weavable.bound
  rw [← same, bound.collaborators, Except.toOption, Option.any_some, decide_eq_true_iff] at needed
  rw [← same, ← bound.markers] at listed
  obtain ⟨method, found⟩ := completed.new_of_needed listed needed
  rw [same] at completed found
  rw [next] at found
  have none := Option.isNone_iff_eq_none.1 new
  exact ⟨_, method, acyclic, completed.result, none, found,
    weave_delegates acyclic completed.result none found⟩

end ReleaseWeaver
