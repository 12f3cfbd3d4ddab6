import Mathlib.Data.List.Destutter
import Mathlib.Data.List.Sort
import Mathlib.Data.Prod.Lex
import ReleaseWeaver.Proofs.Weave.Settled
import ReleaseWeaver.Sample.Reference

/-
  The preparation of the teardowns as an operation on sets of targets. The order in which it takes
  the targets' types is that of their places, the length of the chain and then the position, sorted
  and without repetitions. No step of it lacks the teardown that it overrides. Main statement: the
  preparation counts the types that declare no teardown and can have one, leaves each target with a
  teardown of its own or with the error that it had, so that the passes add no method, does nothing
  when it is repeated, and depends on the set of the targets alone.
-/

namespace ReleaseWeaver

/-- The plan once the override that it asks for is there. -/
def TeardownPlan.carriedOut (m : Module) (name : String) : TeardownPlan → TeardownPlan
  | .existing key => .existing key
  | .synthesize _ => .existing (m.nextMethodKey name)

theorem MethodDef.finalExit?_openedIf (opens : Bool) (d : MethodDef) :
    (d.openedIf opens).finalExit? = d.finalExit? := by
  cases opens <;> rfl

/-! ## The order -/

theorem mem_destutter_ne {α : Type} [DecidableEq α] {a : α} :
    ∀ xs : List α, a ∈ xs.destutter (· ≠ ·) ↔ a ∈ xs
  | [] => Iff.rfl
  | x :: xs => by
    rw [List.destutter_cons']
    induction xs generalizing x with
    | nil => exact Iff.rfl
    | cons y rest ih =>
      rw [List.destutter'_cons]
      split
      · rw [List.mem_cons, ih, List.mem_cons (l := y :: rest)]
      · next same =>
        rw [ih, not_not.1 same]
        simp

/-- What is sorted ascends once adjacent repetitions are dropped. -/
theorem ascending_destutter {α : Type} [LinearOrder α] {xs : List α}
    (sorted : xs.Pairwise (· ≤ ·)) : (xs.destutter (· ≠ ·)).Pairwise (· < ·) := by
  have ordered := List.isChain_iff_getElem.1
    (List.isChain_iff_pairwise.2 (sorted.sublist (List.destutter_sublist (· ≠ ·) xs)))
  have distinct := List.isChain_iff_getElem.1 (List.isChain_destutter (· ≠ ·) xs)
  refine List.isChain_iff_pairwise.1 (List.isChain_iff_getElem.2 fun i inside => ?_)
  exact lt_of_le_of_ne (ordered i inside) (distinct i inside)

namespace Module

variable {m m' : Module} {d : Disposal} {t t' : TypeDef} {targets targets' : List Target}
  {name : String} {key : MethodKey} {own : MethodDef}

/-- Where a type stands in the module. -/
def position (m : Module) (t : TypeDef) : Nat :=
  (m.types.map TypeDef.definitionName).idxOf t.definitionName

theorem position_getElem {i : Nat} (inside : i < m.types.length) : m.position m.types[i] = i := by
  have found := m.names_nodup.idxOf_getElem i (by simpa using inside)
  rwa [List.getElem_map] at found

theorem getElem?_position (listed : t ∈ m.types) : m.types[m.position t]? = some t := by
  obtain ⟨i, inside, rfl⟩ := List.getElem_of_mem listed
  rw [position_getElem, List.getElem?_eq_getElem inside]

/-- The length of the chain of a type, then its position in the module. -/
def place (m : Module) (t : TypeDef) : Nat ×ₗ Nat := toLex ((m.ancestors t).length, m.position t)

theorem place_lt {t u : TypeDef} : m.place t < m.place u ↔
    (m.ancestors t).length < (m.ancestors u).length ∨
      (m.ancestors t).length = (m.ancestors u).length ∧ m.position t < m.position u :=
  Prod.Lex.toLex_lt_toLex

/-- The places of the targets' types in ascending order, each once. -/
def places (m : Module) (targets : List Target) : List (Nat ×ₗ Nat) :=
  (((targets.filterMap fun target => m.findType? target.typeName).map m.place).mergeSort
    (· ≤ ·)).destutter (· ≠ ·)

theorem ascending_insertByChain {types : List TypeDef}
    (earlier : ∀ u ∈ types, m.position t < m.position u)
    (ascending : (types.map m.place).Pairwise (· < ·)) :
    ((Weave.insertByChain m t types).map m.place).Pairwise (· < ·) := by
  induction types with
  | nil => exact List.pairwise_singleton _ _
  | cons first rest ih =>
    obtain ⟨least, ascending⟩ := List.pairwise_cons.1 ascending
    rw [Weave.insertByChain]
    split
    · next order =>
      have ahead : m.place t < m.place first := by
        obtain shorter | same := Nat.lt_or_eq_of_le order
        · exact place_lt.2 (.inl shorter)
        · exact place_lt.2 (.inr ⟨same, earlier first List.mem_cons_self⟩)
      refine List.pairwise_cons.2 ⟨fun place listed => ?_, List.pairwise_cons.2 ⟨least, ascending⟩⟩
      obtain rfl | later := List.mem_cons.1 listed
      · exact ahead
      · exact ahead.trans (least place later)
    · next order =>
      have ahead : m.place first < m.place t := place_lt.2 (.inl (Nat.lt_of_not_le order))
      refine List.pairwise_cons.2 ⟨fun place listed => ?_,
        ih (fun u later => earlier u (List.mem_cons_of_mem _ later)) ascending⟩
      obtain ⟨u, among, rfl⟩ := List.mem_map.1 listed
      obtain rfl | among := Weave.mem_insertByChain.1 among
      · exact ahead
      · exact least _ (List.mem_map_of_mem among)

theorem ascending_preparationOrder (m : Module) (targets : List Target) :
    ((Weave.preparationOrder m targets).map m.place).Pairwise (· < ·) := by
  have positions : m.types.Pairwise fun t u => m.position t < m.position u := by
    refine List.pairwise_iff_getElem.2 fun i j inside inside' before => ?_
    rw [position_getElem, position_getElem]
    exact before
  have filtered := positions.filter fun t =>
    targets.any fun target => target.typeName == t.definitionName
  unfold Weave.preparationOrder
  generalize m.types.filter _ = types at filtered
  induction types with
  | nil => exact List.Pairwise.nil
  | cons t rest ih =>
    obtain ⟨earlier, filtered⟩ := List.pairwise_cons.1 filtered
    exact ascending_insertByChain (fun u among => earlier u (Weave.mem_foldr_insertByChain.1 among))
      (ih filtered)

theorem perm_preparationOrder (m : Module) (targets : List Target) :
    (Weave.preparationOrder m targets).Perm
      (m.types.filter fun t => targets.any fun target => target.typeName == t.definitionName) := by
  have places : ((Weave.preparationOrder m targets).map m.place).Nodup :=
    (ascending_preparationOrder m targets).imp ne_of_lt
  have distinct := m.names_nodup.of_map.filter fun t =>
    targets.any fun target => target.typeName == t.definitionName
  exact (List.perm_ext_iff_of_nodup places.of_map distinct).2 fun t =>
    Weave.mem_foldr_insertByChain

/-- The preparation takes the targets' types in the order of their places. -/
theorem map_place_preparationOrder (m : Module) (targets : List Target) :
    (Weave.preparationOrder m targets).map m.place = m.places targets := by
  have ascending : (m.places targets).Pairwise (· < ·) :=
    ascending_destutter (List.pairwise_mergeSort' (· ≤ ·) _)
  refine (ascending_preparationOrder m targets).eq_of_mem_iff ascending fun place => ?_
  simp only [places, mem_destutter_ne, List.mem_mergeSort, List.mem_map, List.mem_filterMap,
    Weave.mem_preparationOrder_iff]
  refine exists_congr fun t => and_congr ⟨fun ⟨listed, target, among, named⟩ => ?_,
    fun ⟨target, among, known⟩ => ?_⟩ Iff.rfl
  · exact ⟨target, among, named ▸ findType?_of_mem listed⟩
  · obtain ⟨listed, named⟩ := mem_of_findType? known
    exact ⟨listed, target, among, named.symm⟩

/-- The same types are targets. -/
theorem preparationOrder_congr
    (same : ∀ name, (∃ target ∈ targets', target.typeName = name) ↔
      ∃ target ∈ targets, target.typeName = name) (m : Module) :
    Weave.preparationOrder m targets' = Weave.preparationOrder m targets := by
  unfold Weave.preparationOrder
  refine congrArg _ (List.filter_congr fun t _ => ?_)
  rw [Bool.eq_iff_iff]
  simpa only [List.any_eq_true, beq_iff_eq] using same t.definitionName

/-! ## The loop -/

/-- Carry out a plan, if the teardown that it overrides is there. -/
def ensureTeardown? (m : Module) (t : TypeDef) : TeardownPlan → Option (Module × MethodKey)
  | .existing key => some (m, key)
  | .synthesize ancestor => do
    let owner ← m.findType? ancestor.owner
    let inherited ← m.findMethod? ancestor
    return (m.synthesizeTeardown t owner ancestor inherited, m.nextMethodKey t.definitionName)

theorem ensureTeardown?_eq {plan : TeardownPlan} (listed : t ∈ m.types)
    (planned : m.planTeardown d t = .ok plan) :
    m.ensureTeardown? t plan = some (m.ensureTeardown t plan) := by
  cases fits_of_planTeardown listed planned with
  | existing => rfl
  | synthesize known found => simp only [ensureTeardown?, ensureTeardown, known, found]; rfl

/-! ## Plans -/

theorem planTeardown_of_declared (known : m.findType? name = some t)
    (declared : m.declared? d name = some (key, own)) (final : own.finalExit?.isSome = true) :
    m.planTeardown d t = .ok (.existing key) := by
  rw [declared?_of_known known] at declared
  rw [planTeardown, declared]
  exact if_pos final

theorem declared?_of_existing (known : m.findType? name = some t)
    (planned : m.planTeardown d t = .ok (.existing key)) :
    ∃ own, m.declared? d name = some (key, own) ∧ own.finalExit?.isSome = true := by
  rw [declared?_of_known known]
  unfold planTeardown at planned
  split at planned
  · next own declared =>
    split at planned
    · next final =>
      cases planned
      exact ⟨own, declared, final⟩
    · cases planned
  · split at planned
    · cases planned
    · split at planned
      · cases planned
      · split at planned <;> cases planned

end Module

namespace Weave

open ReleaseWeaver.Module

variable {m m' : Module} {d : Disposal} {t t' : TypeDef} {targets targets' : List Target}
  {name other : String}

/-- Prepare the type at a position. -/
def prepareAt? (d : Disposal) (m : Module) (position : Nat) : Option (Module × Nat) := do
  let t ← m.types[position]?
  if !m.isDisposable d t then return (m, 0)
  match m.planTeardown d t with
  | .ok (.synthesize ancestor) => return ((← m.ensureTeardown? t (.synthesize ancestor)).1, 1)
  | _ => return (m, 0)

/-- Prepare the type at a place, and add to the count. -/
def prepareNext? (d : Disposal) (prepared : Module × Nat) (place : Nat ×ₗ Nat) :
    Option (Module × Nat) :=
  (prepareAt? d prepared.1 (ofLex place).2).map fun step => (step.1, prepared.2 + step.2)

/-- Prepare the types at the places of the targets, and count the overrides. -/
def prepareTeardowns? (d : Disposal) (targets : List Target) (m : Module) : Option (Module × Nat) :=
  (m.places targets).foldlM (prepareNext? d) (m, 0)

/-- Prepare a type, and add to the count. -/
def prepareNext (d : Disposal) (prepared : Module × Nat) (t : TypeDef) : Module × Nat :=
  ((prepareTeardown d t.definitionName prepared.1).1,
    prepared.2 + (prepareTeardown d t.definitionName prepared.1).2)

theorem prepareTeardowns_eq (d : Disposal) (targets : List Target) (m : Module) :
    prepareTeardowns d targets m = (preparationOrder m targets).foldl (prepareNext d) (m, 0) := rfl

theorem prepareAt?_eq {position : Nat} (here : m.types[position]? = some t) :
    prepareAt? d m position = some (prepareTeardown d t.definitionName m) := by
  have listed := List.mem_of_getElem? here
  unfold prepareAt? prepareTeardown
  rw [here, findType?_of_mem listed, Option.bind_eq_bind, Option.bind_some]
  dsimp only
  cases m.isDisposable d t with
  | false => rfl
  | true =>
    cases planned : m.planTeardown d t with
    | error e => rfl
    | ok plan =>
      cases plan with
      | existing key => rfl
      | synthesize ancestor =>
        dsimp only
        rw [ensureTeardown?_eq listed planned]
        rfl

theorem shapes_prepareTeardown (d : Disposal) (name : String) (m : Module) :
    (prepareTeardown d name m).1.shapes = m.shapes := by
  by_cases needed : m.NeedsOverride d name
  · obtain ⟨_, _, step⟩ := prepareTeardown_overriding needed
    exact step.shapes
  · rw [prepareTeardown_idle needed]

theorem foldlM_prepareNext? {types : List TypeDef} (listed : ∀ t ∈ types, t ∈ m.types)
    {prepared : Module × Nat} (shapes : prepared.1.shapes = m.shapes) :
    (types.map m.place).foldlM (prepareNext? d) prepared =
      some (types.foldl (prepareNext d) prepared) := by
  induction types generalizing prepared with
  | nil => rfl
  | cons t rest ih =>
    obtain ⟨first, listed⟩ := List.forall_mem_cons.1 listed
    -- The module changes under the loop, but every type keeps its name and its position.
    have same := congrArg (fun types : List TypeDef => types[m.position t]?) shapes
    simp only [Module.shapes, List.getElem?_map, getElem?_position first] at same
    obtain ⟨u, here, shape⟩ := Option.map_eq_some_iff.1 same
    have named : u.definitionName = t.definitionName := by
      rw [← TypeDef.definitionName_shape, shape, TypeDef.definitionName_shape]
    have step : prepareNext? d prepared (m.place t) = some (prepareNext d prepared t) := by
      rw [prepareNext?, show prepareAt? d prepared.1 (ofLex (m.place t)).2 = _ from
        prepareAt?_eq here, named]
      rfl
    rw [List.map_cons, List.foldlM_cons, step, List.foldl_cons]
    exact ih listed ((shapes_prepareTeardown d _ _).trans shapes)

/-- Every step of the loop finds what it needs. -/
theorem prepareTeardowns?_eq (d : Disposal) (targets : List Target) (m : Module) :
    prepareTeardowns? d targets m = some (prepareTeardowns d targets m) := by
  rw [prepareTeardowns?, prepareTeardowns_eq, ← map_place_preparationOrder]
  exact foldlM_prepareNext? (fun t among => (mem_preparationOrder_iff.1 among).1) rfl

/-! ## The number of overrides -/

theorem prepareTeardown_needed (needed : m.NeedsOverride d name) :
    (prepareTeardown d name m).2 = 1 := by
  obtain ⟨t, known, disposable, ancestor, planned⟩ := needed
  simp only [prepareTeardown, known, disposable, planned, Bool.not_true, Bool.false_eq_true,
    if_false]

theorem needsOverride_prepareTeardown : (prepareTeardown d name m).1.NeedsOverride d other ↔
    m.NeedsOverride d other ∧ other ≠ name := by
  by_cases needed : m.NeedsOverride d name
  · obtain ⟨_, _, step⟩ := prepareTeardown_overriding needed
    exact step.needsOverride
  · rw [prepareTeardown_idle needed]
    refine ⟨fun other_needed => ⟨other_needed, ?_⟩, And.left⟩
    rintro rfl
    exact needed other_needed

/-- Whether a type is disposable, declares no teardown and can have one. -/
def overridable (d : Disposal) (m : Module) (t : TypeDef) : Bool :=
  m.isDisposable d t && (t.ownTeardown? d).isNone && (m.planTeardown d t).isOk

theorem needsOverride_iff_overridable (listed : t ∈ m.types) :
    m.NeedsOverride d t.definitionName ↔ overridable d m t = true := by
  have known := findType?_of_mem listed
  rw [Module.needsOverride_iff known, declared?_of_known known, overridable, Bool.and_eq_true,
    Bool.and_eq_true, Option.isNone_iff_eq_none, and_assoc]
  refine and_congr Iff.rfl (and_congr Iff.rfl ?_)
  cases m.planTeardown d t with
  | error e => exact ⟨fun accepted => absurd rfl (accepted e), nofun⟩
  | ok plan => exact ⟨fun _ => rfl, fun _ _ => nofun⟩

theorem count_foldl_prepareNext {types : List TypeDef}
    (distinct : (types.map TypeDef.definitionName).Nodup) (prepared : Module × Nat) :
    (types.foldl (prepareNext d) prepared).2 =
      prepared.2 + types.countP fun t => decide (prepared.1.NeedsOverride d t.definitionName) := by
  induction types generalizing prepared with
  | nil => rfl
  | cons t rest ih =>
    obtain ⟨fresh, distinct⟩ := List.nodup_cons.1 distinct
    -- The step takes the need from its own type only, and the others have other names.
    have later : (rest.countP fun u =>
          decide ((prepareNext d prepared t).1.NeedsOverride d u.definitionName)) =
        rest.countP fun u => decide (prepared.1.NeedsOverride d u.definitionName) := by
      refine List.countP_congr fun u among => ?_
      have ne : u.definitionName ≠ t.definitionName := fun same =>
        fresh (same ▸ List.mem_map_of_mem among)
      simp only [decide_eq_true_eq, prepareNext, needsOverride_prepareTeardown, ne_eq, ne,
        not_false_eq_true, and_true]
    rw [List.foldl_cons, ih distinct, later, List.countP_cons]
    by_cases needed : prepared.1.NeedsOverride d t.definitionName
    · rw [prepareNext, prepareTeardown_needed needed, if_pos (decide_eq_true needed)]
      omega
    · rw [prepareNext, prepareTeardown_idle needed, if_neg (by simpa using needed)]
      omega

/-- The count is that of the targets' types that need an override to begin with. -/
theorem count_prepareTeardowns (d : Disposal) (targets : List Target) (m : Module) :
    (prepareTeardowns d targets m).2 = m.types.countP fun t =>
      (targets.any fun target => target.typeName == t.definitionName) && overridable d m t := by
  have perm := perm_preparationOrder m targets
  have distinct := (perm.map TypeDef.definitionName).nodup_iff.2
    (m.names_nodup.sublist (List.filter_sublist.map TypeDef.definitionName))
  calc (prepareTeardowns d targets m).2
      = 0 + (preparationOrder m targets).countP fun t =>
          decide (m.NeedsOverride d t.definitionName) := count_foldl_prepareNext distinct (m, 0)
    _ = (m.types.filter fun t => targets.any fun target =>
          target.typeName == t.definitionName).countP fun t =>
            decide (m.NeedsOverride d t.definitionName) := by rw [Nat.zero_add, perm.countP_eq]
    _ = m.types.countP fun t => decide (m.NeedsOverride d t.definitionName) &&
          targets.any fun target => target.typeName == t.definitionName := List.countP_filter
    _ = _ := List.countP_congr fun t listed => by
          rw [Bool.and_comm, Bool.and_eq_true, Bool.and_eq_true, decide_eq_true_eq,
            needsOverride_iff_overridable listed]

/-! ## Plans afterwards -/

/-- Each target that was accepted declares its teardown in the end: the one it had, or an override
at the end of its methods. -/
theorem Preparation.planTeardown {names : List String} {given : List (String × MethodKey)}
    (run : Preparation d names m given m') (listed : name ∈ names)
    (known : m.findType? name = some t) (known' : m'.findType? name = some t')
    (disposable : m.isDisposable d t = true) :
    m'.planTeardown d t' = (m.planTeardown d t).map (TeardownPlan.carriedOut m name) := by
  cases planned : m.planTeardown d t with
  | error e => exact (run.planTeardown_error known known' e).2 planned
  | ok plan =>
    cases plan with
    | existing key =>
      obtain ⟨own, declared, final⟩ := declared?_of_existing known planned
      have ungiven : name ∉ given.map Prod.fst := by
        intro again
        rw [((Module.needsOverride_iff known).1 (run.mem_given_iff.1 again).2).2.1] at declared
        cases declared
      have declared' := run.declared?_other ungiven
      rw [declared, Option.map_some] at declared'
      refine planTeardown_of_declared known' declared' ?_
      rw [MethodDef.finalExit?_openedIf]
      exact final
    | synthesize ancestor =>
      have needed : m.NeedsOverride d name := ⟨t, known, disposable, ancestor, planned⟩
      obtain ⟨⟨_, overridden⟩, among, rfl⟩ :=
        List.mem_map.1 (run.mem_given_iff.2 ⟨listed, needed⟩)
      obtain ⟨method, gives, declared⟩ := run.declared?_given among
      obtain ⟨own, _, rfl⟩ := gives.overrideVia
      exact planTeardown_of_declared known' declared rfl

/-! ## The passes afterwards -/

/-- The module that an action leaves, also where it fails. -/
def moduleAfter (action : Weaving Unit) (s : Session) : Module :=
  match action s with
  | .ok _ s' | .error _ s' => s'.module

theorem moduleAfter_ok {action : Weaving Unit} {s s' : Session} (run : action s = .ok () s') :
    moduleAfter action s = s'.module := by
  rw [moduleAfter, run]

theorem moduleAfter_error {action : Weaving Unit} {s s' : Session} {e : WeaveError}
    (run : action s = .error e s') : moduleAfter action s = s'.module := by
  rw [moduleAfter, run]

/-- Passes over settled targets add no method and change no outline. -/
theorem Settled.passes {c : WeaveContext} {s : Session} (settled : Settled c targets s.module)
    (known : ∀ target ∈ targets, ∃ t, s.module.findType? target.typeName = some t)
    {tracked commands : List Target} (among : tracked ⊆ targets) (among' : commands ⊆ targets)
    (capability : TypeRef) :
    s.module.Keeps (moduleAfter (do
      tracked.forM (weaveTarget (trackHandles c))
      commands.forM (weaveTarget (releaseCommands c capability))) s) := by
  obtain ⟨entries, r, m₁, s₁, pass, ended, tracks⟩ :=
    trackPass_run c fun target listed => known target (among listed)
  have kept : s.module.Keeps m₁ := pass.keeps fun target listed => settled target (among listed)
  cases r with
  | some e =>
    rw [moduleAfter_error (Weaving.bind_error tracks), ended.module]
    exact kept
  | none =>
    have known₁ : ∀ target ∈ commands, ∃ t, s₁.module.findType? target.typeName = some t := by
      intro target listed
      obtain ⟨t, found⟩ := known target (among' listed)
      obtain ⟨t', found', _⟩ := findType?_of_shapes kept.shapes found
      exact ⟨t', ended.module ▸ found'⟩
    obtain ⟨entries', m₂, s₂, pass', ended', releases⟩ := releasePass_run c capability known₁
    rw [ended.module] at pass'
    have kept' : m₁.Keeps m₂ := pass'.keeps fun target listed =>
      settled.of_keeps kept target (among' listed)
    rw [moduleAfter_ok ((Weaving.bind_ok tracks).trans releases), ended'.module]
    exact kept.trans kept'

/-- The preparation as an operation on a set of targets. -/
theorem prepareTeardowns_settles (d : Disposal) (targets : List Target) (m : Module) :
    let after := (prepareTeardowns d targets m).1
    prepareTeardowns? d targets m = some (prepareTeardowns d targets m) ∧
    (prepareTeardowns d targets m).2 = m.types.countP (fun t =>
      (targets.any fun target => target.typeName == t.definitionName) && overridable d m t) ∧
    (∀ target ∈ targets, ∀ t, m.findType? target.typeName = some t → m.isDisposable d t = true →
      ∃ t', after.findType? target.typeName = some t' ∧ after.isDisposable d t' = true ∧
        after.planTeardown d t' =
          (m.planTeardown d t).map (TeardownPlan.carriedOut m target.typeName)) ∧
    (∀ (c : WeaveContext) (capability : TypeRef) (tracked commands : List Target) (s : Session),
      c.disposal = d → tracked ⊆ targets → commands ⊆ targets → s.module = after →
      (∀ target ∈ targets, ∃ t, m.findType? target.typeName = some t) →
        after.Keeps (moduleAfter (do
          tracked.forM (weaveTarget (trackHandles c))
          commands.forM (weaveTarget (releaseCommands c capability))) s)) ∧
    prepareTeardowns? d targets after = some (after, 0) ∧
    ∀ targets' : List Target, (∀ name, (∃ target ∈ targets', target.typeName = name) ↔
        ∃ target ∈ targets, target.typeName = name) →
      prepareTeardowns? d targets' m = prepareTeardowns? d targets m := by
  intro after
  obtain ⟨given, run⟩ := preparation_run d targets m
  refine ⟨prepareTeardowns?_eq d targets m, count_prepareTeardowns d targets m, ?_, ?_, ?_, ?_⟩
  · intro target listed t known disposable
    obtain ⟨t', known', shape⟩ := findType?_of_shapes run.shapes known
    have among := mem_preparationOrder.2 ⟨⟨t, known⟩, target, listed, rfl⟩
    exact ⟨t', known', (isDisposable_of_shapes run.shapes shape).trans disposable,
      run.planTeardown among known known' disposable⟩
  · rintro c capability tracked commands s rfl among among' start known
    have settled : Settled c targets s.module := start ▸ settled_prepareTeardowns c targets m
    rw [← start]
    refine settled.passes (fun target listed => ?_) among among' capability
    obtain ⟨t, found⟩ := known target listed
    obtain ⟨t', found', _⟩ := findType?_of_shapes run.shapes found
    exact ⟨t', start ▸ found'⟩
  · rw [prepareTeardowns?_eq]
    exact congrArg some (prepareTeardowns_idle fun target listed needs =>
      needs.of_prepareTeardowns target listed rfl)
  · intro targets' same
    rw [prepareTeardowns?_eq, prepareTeardowns?_eq, prepareTeardowns, prepareTeardowns,
      preparationOrder_congr same]

end Weave

namespace Sample

def heir (name : String) (base : TypeRef) (teardowns : List MethodDef)
    (generics : List String := []) : TypeDef :=
  { ns := modelsNamespace, name, base := some base, interfaces := [disposable], generics,
    methods := teardowns }

def disposing (flags : MethodFlags) (code : List Instr) : MethodDef :=
  { name := "Dispose", flags, body := some (Body.ofInstrs code) }

/-- A chain of two types that need an override, the lower one first, and four that are refused: one
below a final teardown, a generic one, one whose teardown never returns and one without any. -/
def heirs : Module where
  name := "Heirs"
  types := [
    heir "Leaf" (model "Mid") [],
    heir "Mid" (model "Root") [],
    heir "Root" object [disposing .overridable [.ret]],
    heir "Closed" object [disposing { isVirtual := true, isFinal := true } [.ret]],
    heir "Below" (model "Closed") [],
    heir "Box`1" (model "Root") [] ["T"],
    heir "Endless" object [disposing .overridable [.ldnull, .throw]],
    heir "Bare" object []]
  names_nodup := by decide +kernel

def heirTargets : List Target :=
  heirs.types.map fun t => ⟨t.definitionName, .trackHandles, true⟩

def heirContext : WeaveContext where
  config := Config.default
  collaborators := {
    contract := disposable, contractRelease := disposableDispose, container := container,
    containerConstructor := containerConstructor, containerRelease := containerDispose,
    helper := trackWith }
  markers := MarkerTable.collect heirs Config.default.markers

end Sample

namespace Weave

open ReleaseWeaver.Module Sample in
/-- Both heirs get an override, and the others are refused as before. -/
theorem prepareTeardowns_settles_heirs :
    let d := heirContext.disposal
    let after := (prepareTeardowns d heirTargets heirs).1
    (prepareTeardowns d heirTargets heirs).2 = 2 ∧
    (∃ t, after.findType? "Sweep.Tests.Models.Leaf" = some t ∧
      after.planTeardown d t = .ok (.existing ⟨"Sweep.Tests.Models.Leaf", 0⟩)) ∧
    (∃ t, after.findType? "Sweep.Tests.Models.Below" = some t ∧
      after.planTeardown d t = .error (.finalTeardown "Sweep.Tests.Models.Closed::Dispose")) ∧
    after.Keeps (moduleAfter (do
      heirTargets.forM (weaveTarget (trackHandles heirContext))
      heirTargets.forM (weaveTarget (releaseCommands heirContext commandCapability)))
        { module := after }) ∧
    prepareTeardowns? d heirTargets after = some (after, 0) ∧
    prepareTeardowns? d (heirTargets.reverse ++ heirTargets) heirs =
      prepareTeardowns? d heirTargets heirs := by
  intro d after
  obtain ⟨_, count, plans, passes, again, free⟩ := prepareTeardowns_settles d heirTargets heirs
  have plan (name : String) (listed : ∃ target ∈ heirTargets, target.typeName = name)
      (disposable : (heirs.findType? name).all (heirs.isDisposable d) = true)
      {before : Except TargetError TeardownPlan}
      (planned : (heirs.findType? name).map (heirs.planTeardown d) = some before) :
      ∃ t, after.findType? name = some t ∧
        after.planTeardown d t = before.map (.carriedOut heirs name) := by
    obtain ⟨target, among, rfl⟩ := listed
    obtain ⟨t, known, rfl⟩ := Option.map_eq_some_iff.1 planned
    rw [known] at disposable
    obtain ⟨t', known', _, after_planned⟩ := plans target among t known disposable
    exact ⟨t', known', after_planned⟩
  have known : ∀ target ∈ heirTargets, (heirs.findType? target.typeName).isSome = true := by
    decide +kernel
  refine ⟨count.trans (by decide +kernel), ?_, ?_, ?_, again, ?_⟩
  · exact plan "Sweep.Tests.Models.Leaf" (by decide +kernel) (by decide +kernel) rfl
  · exact plan "Sweep.Tests.Models.Below" (by decide +kernel) (by decide +kernel) rfl
  · exact passes heirContext commandCapability heirTargets heirTargets _ rfl (List.Subset.refl _)
      (List.Subset.refl _) rfl fun target listed => Option.isSome_iff_exists.1 (known target listed)
  · refine free _ fun name => ?_
    simp only [List.mem_append, List.mem_reverse, or_self]

end Weave

end ReleaseWeaver
