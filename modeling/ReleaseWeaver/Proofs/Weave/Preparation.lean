import ReleaseWeaver.Proofs.Weave.Stubs
import ReleaseWeaver.Weave.Pass

/-
  The preparation of the teardowns as a relation: name by name, the type of a name gets the
  override that it needs, and the trace tells who got one and what it overrides. Who gets one can
  be told from the module as it was, and so can the override itself; of the other methods some are
  opened for overriding. Main statement: where no type is above itself, and types with shorter
  chains come first, each override calls the nearest teardown above it that there is in the end.
-/

namespace ReleaseWeaver

namespace Module

variable {m m' : Module} {d : Disposal} {name other : String} {key ancestor : MethodKey}
  {method : MethodDef}

/-- How the teardown that the type of a name declares is overridden. -/
def overrides? (m : Module) (d : Disposal) (name : String) : Option (TypeRef → MethodDef) :=
  (m.declared? d name).map fun own => own.2.overrideVia

/-- What the type of a name gets: an override of the first teardown up its chain, which calls the
teardown that a type above it has by then. -/
structure Gives (m : Module) (d : Disposal) (name : String) (ancestor : MethodKey)
    (method : MethodDef) : Prop where
  needed : m.NeedsOverride d name
  strict : ancestor.owner ≠ name
  above : ∃ k, m.above k name = some ancestor.owner
  override : ∃ override, m.FirstUp (m.overrides? d) name override ∧
    method = override (m.refAbove name ancestor.owner)

theorem Gives.overrideVia (gives : m.Gives d name ancestor method) :
    ∃ own, d.isTeardown own = true ∧ method = own.overrideVia (m.refAbove name ancestor.owner) := by
  obtain ⟨override, ⟨_, a, _, overrides, _⟩, same⟩ := gives.override
  obtain ⟨⟨key, own⟩, declared, rfl⟩ := Option.map_eq_some_iff.1 overrides
  obtain ⟨teardown, found⟩ := declared?_eq_some.1 declared
  have here := teardown.here
  rw [found, Option.map_some] at here
  exact ⟨own, Option.some.inj here, same⟩

/-- An override is an instance method with a body. -/
theorem Gives.isInstanceWithBody (gives : m.Gives d name ancestor method) :
    method.isInstanceWithBody = true := by
  obtain ⟨own, teardown, rfl⟩ := gives.overrideVia
  simp only [Disposal.isTeardown, Bool.and_eq_true, Bool.not_eq_true'] at teardown
  have instance_method := teardown.2
  simp only [MethodDef.isStatic] at instance_method
  simp [MethodDef.isInstanceWithBody, MethodDef.overrideVia, overridingTeardown, MethodDef.isStatic,
    MethodDef.hasBody, instance_method]

namespace Overriding

variable {inherited : MethodDef} (step : m.Overriding d name ancestor inherited m')

include step

theorem inherits : m.FirstUp (m.overrides? d) name inherited.overrideVia := by
  have first := step.first.map fun own => own.2.overrideVia
  exact first

theorem gives (needed : m.NeedsOverride d name) :
    m.Gives d name ancestor (inherited.overrideVia (m.refAbove name ancestor.owner)) := by
  obtain ⟨k, a, there, declared, _⟩ := step.first
  have owned : ancestor.owner = a := (declared?_eq_some.1 declared).1.owned
  refine ⟨needed, fun same => ?_, ⟨k, owned ▸ there⟩, inherited.overrideVia, step.inherits, rfl⟩
  rw [← owned, same, step.absent] at declared
  cases declared

/-- As far as further overrides go, an override is what it overrides. -/
theorem overrides {override : TypeRef → MethodDef}
    (first : m'.FirstUp (m'.overrides? d) other override) :
    m.FirstUp (m.overrides? d) other override := by
  have absent : m.overrides? d name = none := by
    rw [overrides?, step.absent, Option.map_none]
  have given : m'.overrides? d name = some inherited.overrideVia := by
    rw [overrides?, step.declared?_given, Option.map_some, MethodDef.overrideVia_overrideVia
      (MethodDef.params_of_isTeardown step.isTeardown)]
  have others (n : String) (ne : n ≠ name) : m'.overrides? d n = m.overrides? d n := by
    rw [overrides?, overrides?, step.declared?_other ne, Option.map_map]
    congr 1
    funext own
    exact MethodDef.overrideVia_openedIf _ own.2
  rw [firstUp_of_shapes step.shapes] at first
  obtain before | ⟨rfl, before⟩ :=
    FirstUp.before_given absent given others step.inherits first
  · exact before
  · exact before

/-- What a type gets later on it could be given now. -/
theorem gives_before (later : m'.Gives d other key method) :
    m.Gives d other key method ∧ other ≠ name := by
  obtain ⟨needed, ne⟩ := step.needsOverride.1 later.needed
  obtain ⟨override, first, same⟩ := later.override
  refine ⟨⟨needed, later.strict, ?_, override, step.overrides first, ?_⟩, ne⟩
  · rw [← above_of_shapes step.shapes]
    exact later.above
  · rw [same, refAbove_of_shapes step.shapes]

end Overriding

end Module

namespace Weave

open ReleaseWeaver.Module

/-- Name by name, the type gets the override that it needs. -/
inductive Preparation (d : Disposal) :
    List String → Module → List (String × MethodKey) → Module → Prop where
  | done {m} : Preparation d [] m [] m
  | idle {name rest m given m'} : ¬m.NeedsOverride d name → Preparation d rest m given m' →
      Preparation d (name :: rest) m given m'
  | given {name rest m ancestor given m'} {inherited : MethodDef} {after : Module} :
      m.NeedsOverride d name → m.Overriding d name ancestor inherited after →
      Preparation d rest after given m' →
      Preparation d (name :: rest) m ((name, ancestor) :: given) m'

variable {d : Disposal} {names : List String} {given : List (String × MethodKey)}
  {m m' : Module} {name other : String} {key ancestor : MethodKey} {method own : MethodDef}

theorem prepareTeardown_idle (idle : ¬m.NeedsOverride d name) :
    prepareTeardown d name m = (m, 0) := by
  unfold prepareTeardown
  split
  · rfl
  · next t known =>
    split
    · rfl
    · next disposable =>
      split
      · next ancestor planned =>
        exact absurd ⟨t, known, by simpa using disposable, ancestor, planned⟩ idle
      · rfl

theorem prepareTeardown_overriding (needed : m.NeedsOverride d name) :
    ∃ ancestor inherited,
      m.Overriding d name ancestor inherited (prepareTeardown d name m).1 := by
  obtain ⟨t, known, disposable, ancestor, planned⟩ := needed
  have step : (prepareTeardown d name m).1 = (m.ensured name (.synthesize ancestor)).1 := by
    simp only [prepareTeardown, known, disposable, planned, ensured, Option.getD_some,
      Bool.not_true, Bool.false_eq_true, if_false]
  rw [step]
  exact ⟨ancestor, overriding_ensured known planned⟩

theorem preparation_foldl {step : Module × Nat → TypeDef → Module × Nat}
    (each : ∀ s t, (step s t).1 = (prepareTeardown d t.definitionName s.1).1)
    (types : List TypeDef) (start : Module × Nat) : ∃ given,
      Preparation d (types.map TypeDef.definitionName) start.1 given
        (types.foldl step start).1 := by
  induction types generalizing start with
  | nil => exact ⟨[], .done⟩
  | cons t rest ih =>
    obtain ⟨given, run⟩ := ih (step start t)
    rw [each] at run
    by_cases needed : start.1.NeedsOverride d t.definitionName
    · obtain ⟨ancestor, inherited, overriding⟩ := prepareTeardown_overriding needed
      exact ⟨_, .given needed overriding run⟩
    · rw [prepareTeardown_idle needed] at run
      exact ⟨given, .idle needed run⟩

/-- The preparation of some targets goes through their names. -/
theorem preparation_run (d : Disposal) (targets : List Target) (m : Module) :
    ∃ given, Preparation d ((preparationOrder m targets).map TypeDef.definitionName) m given
      (prepareTeardowns d targets m).1 := by
  refine preparation_foldl ?_ (preparationOrder m targets) (m, 0)
  exact fun start t => rfl

theorem mem_insertByChain {t u : TypeDef} {types : List TypeDef} :
    u ∈ insertByChain m t types ↔ u = t ∨ u ∈ types := by
  induction types with
  | nil => simp [insertByChain]
  | cons first rest ih =>
    rw [insertByChain]
    split
    · rw [List.mem_cons]
    · rw [List.mem_cons, ih, List.mem_cons, or_left_comm]

theorem sorted_insertByChain (m : Module) {t : TypeDef} {types : List TypeDef}
    (sorted : types.Pairwise fun a b => (m.ancestors a).length ≤ (m.ancestors b).length) :
    (insertByChain m t types).Pairwise fun a b =>
      (m.ancestors a).length ≤ (m.ancestors b).length := by
  induction types with
  | nil => exact List.pairwise_singleton _ t
  | cons first rest ih =>
    obtain ⟨shorter, rest_sorted⟩ := List.pairwise_cons.1 sorted
    rw [insertByChain]
    split
    · next order =>
      refine List.pairwise_cons.2 ⟨fun u listed => ?_, sorted⟩
      obtain rfl | later := List.mem_cons.1 listed
      · exact order
      · exact Nat.le_trans order (shorter u later)
    · next order =>
      refine List.pairwise_cons.2 ⟨fun u listed => ?_, ih rest_sorted⟩
      obtain rfl | later := mem_insertByChain.1 listed
      · exact Nat.le_of_not_le order
      · exact shorter u later

theorem mem_foldr_insertByChain {u : TypeDef} {types : List TypeDef} :
    u ∈ types.foldr (insertByChain m) [] ↔ u ∈ types := by
  induction types with
  | nil => exact Iff.rfl
  | cons first rest ih => rw [List.foldr_cons, mem_insertByChain, ih, List.mem_cons]

theorem mem_preparationOrder_iff {t : TypeDef} {targets : List Target} :
    t ∈ preparationOrder m targets ↔
      t ∈ m.types ∧ ∃ target ∈ targets, target.typeName = t.definitionName := by
  simp only [preparationOrder, mem_foldr_insertByChain, List.mem_filter, List.any_eq_true,
    beq_iff_eq]

theorem mem_preparationOrder {targets : List Target} :
    name ∈ (preparationOrder m targets).map TypeDef.definitionName ↔
      (∃ t, m.findType? name = some t) ∧ ∃ target ∈ targets, target.typeName = name := by
  simp only [List.mem_map, mem_preparationOrder_iff]
  constructor
  · rintro ⟨t, ⟨declared, target, listed, same⟩, rfl⟩
    exact ⟨⟨t, findType?_of_mem declared⟩, target, listed, same⟩
  · rintro ⟨⟨t, known⟩, target, listed, same⟩
    obtain ⟨declared, named⟩ := mem_of_findType? known
    exact ⟨t, ⟨declared, target, listed, same.trans named.symm⟩, named⟩

/-- Types with shorter chains come first. -/
theorem sorted_preparationOrder (m : Module) (targets : List Target) :
    ((preparationOrder m targets).map TypeDef.definitionName).Pairwise
      fun a b => m.depth a ≤ m.depth b := by
  rw [List.pairwise_map]
  have sorted : (preparationOrder m targets).Pairwise fun a b =>
      (m.ancestors a).length ≤ (m.ancestors b).length := by
    unfold preparationOrder
    exact List.foldrRecOn _ _ List.Pairwise.nil fun _ sorted _ _ => sorted_insertByChain m sorted
  refine sorted.imp_of_mem fun {a b} listedA listedB order => ?_
  have known {t : TypeDef} (listed : t ∈ preparationOrder m targets) :
      m.findType? t.definitionName = some t :=
    findType?_of_mem (mem_preparationOrder_iff.1 listed).1
  rw [depth_of_known (known listedA), depth_of_known (known listedB)]
  exact order

namespace Preparation

theorem shapes (run : Preparation d names m given m') : m'.shapes = m.shapes := by
  induction run with
  | done => rfl
  | idle _ _ ih => exact ih
  | given _ step _ ih => exact ih.trans step.shapes

/-- Those get an override who need one. -/
theorem mem_given_iff (run : Preparation d names m given m') :
    name ∈ given.map Prod.fst ↔ name ∈ names ∧ m.NeedsOverride d name := by
  induction run with
  | done => simp
  | @idle first rest m given m' idle run ih =>
    rw [ih, List.mem_cons]
    refine ⟨fun ⟨listed, needed⟩ => ⟨.inr listed, needed⟩, fun ⟨listed, needed⟩ => ⟨?_, needed⟩⟩
    obtain rfl | listed := listed
    · exact absurd needed idle
    · exact listed
  | @given first rest m ancestor given m' inherited after needed step run ih =>
    rw [List.map_cons, List.mem_cons, List.mem_cons, ih, step.needsOverride]
    by_cases here : name = first
    · simp [here, needed]
    · simp [here]

/-- In the end nobody among the names needs an override. -/
theorem needsOverride_iff (run : Preparation d names m given m') :
    m'.NeedsOverride d name ↔ m.NeedsOverride d name ∧ name ∉ names := by
  induction run with
  | done => simp
  | @idle first rest m given m' idle run ih =>
    rw [ih, List.mem_cons, not_or]
    refine ⟨fun ⟨needed, unlisted⟩ => ⟨needed, ?_, unlisted⟩, fun ⟨needed, _, unlisted⟩ =>
      ⟨needed, unlisted⟩⟩
    rintro rfl
    exact idle needed
  | given needed step run ih => rw [ih, step.needsOverride, List.mem_cons, not_or, and_assoc]

/-- Who is refused is refused as before. -/
theorem planTeardown_error (run : Preparation d names m given m') {u u' : TypeDef}
    (known : m.findType? name = some u) (known' : m'.findType? name = some u') (e : TargetError) :
    m'.planTeardown d u' = .error e ↔ m.planTeardown d u = .error e := by
  induction run generalizing u with
  | done =>
    rw [known] at known'
    cases known'
    exact Iff.rfl
  | idle _ _ ih => exact ih known known'
  | given _ step run ih =>
    obtain ⟨v, knownV, _⟩ := findType?_of_shapes step.shapes known
    rw [ih knownV known', step.planTeardown_error known knownV]

/-! ## Methods -/

/-- A type that gets nothing declares what it declared. -/
theorem declared?_other (run : Preparation d names m given m')
    (ungiven : name ∉ given.map Prod.fst) : m'.declared? d name =
      (m.declared? d name).map fun own =>
        (own.1, own.2.openedIf (m.opens (given.map Prod.snd) own.1)) := by
  induction run with
  | done => simp [opens]
  | idle _ _ ih => exact ih ungiven
  | given _ step _ ih =>
    obtain ⟨ne, ungiven⟩ := not_or.1 (List.mem_cons.not.1 ungiven)
    rw [ih ungiven, step.declared?_other ne, Option.map_map]
    congr 1
    funext own
    rw [Function.comp_apply, MethodDef.openedIf_openedIf, opens_of_shapes step.shapes,
      List.map_cons, ← opens_cons]

/-- Of the methods that were there some are opened. -/
theorem findMethod?_other (run : Preparation d names m given m')
    (old : ∀ name ∈ given.map Prod.fst, key ≠ m.nextMethodKey name) : m'.findMethod? key =
      (m.findMethod? key).map (MethodDef.openedIf (m.opens (given.map Prod.snd) key)) := by
  induction run with
  | @done m => cases m.findMethod? key <;> simp [opens]
  | idle _ _ ih => exact ih old
  | @given _ _ m _ given _ _ after _ step run ih =>
    rw [List.map_cons, List.forall_mem_cons] at old
    have old' : ∀ name ∈ given.map Prod.fst, key ≠ after.nextMethodKey name := by
      intro name listed
      rw [step.nextMethodKey_other (step.needsOverride.1 (run.mem_given_iff.1 listed).2).2]
      exact old.2 name listed
    rw [ih old', step.methods, if_neg old.1, Option.map_map]
    congr 1
    funext own
    rw [Function.comp_apply, MethodDef.openedIf_openedIf, opens_of_shapes step.shapes,
      List.map_cons, ← opens_cons]

theorem findMethod?_old (run : Preparation d names m given m')
    (found : m.findMethod? key = some own) : m'.findMethod? key =
      some (own.openedIf (m.opens (given.map Prod.snd) key)) := by
  rw [run.findMethod?_other, found, Option.map_some]
  rintro name _ rfl
  rw [findMethod?_nextMethodKey] at found
  cases found

/-- Who gets an override declares it in the end, as it could be told from the start. -/
theorem declared?_given (run : Preparation d names m given m') (listed : (name, ancestor) ∈ given) :
    ∃ method, m.Gives d name ancestor method ∧
      m'.declared? d name = some (m.nextMethodKey name, method) := by
  induction run with
  | done => cases listed
  | idle _ _ ih => exact ih listed
  | @given _ _ m _ given m' inherited after needed step run ih =>
    obtain same | later := List.mem_cons.1 listed
    · cases same
      refine ⟨_, step.gives needed, ?_⟩
      have ungiven : name ∉ given.map Prod.fst := fun again =>
        (step.needsOverride.1 (run.mem_given_iff.1 again).2).2 rfl
      rw [run.declared?_other ungiven, step.declared?_given, Option.map_some,
        MethodDef.openedIf_overrideVia]
    · obtain ⟨method, gives, declared⟩ := ih later
      obtain ⟨before, ne⟩ := step.gives_before gives
      exact ⟨method, before, by rw [declared, step.nextMethodKey_other ne]⟩

/-- In the end each override delegates to the method that it overrides, the teardown of its type. -/
theorem delegates (run : Preparation d names m given m') (listed : (name, ancestor) ∈ given) :
    ∃ own, m'.declared? d ancestor.owner = some (ancestor, own) ∧
      m'.declared? d name =
        some (m.nextMethodKey name, own.overrideVia (m.refAbove name ancestor.owner)) := by
  induction run with
  | done => cases listed
  | idle _ _ ih => exact ih listed
  | @given first _ m _ given m' inherited after needed step run ih =>
    obtain same | later := List.mem_cons.1 listed
    · cases same
      obtain ⟨_, a, _, declared, _⟩ := step.first
      have owned : ancestor.owner = a := (declared?_eq_some.1 declared).1.owned
      subst owned
      have ne : ancestor.owner ≠ name := (step.gives needed).strict
      have ungiven : name ∉ given.map Prod.fst := fun again =>
        (step.needsOverride.1 (run.mem_given_iff.1 again).2).2 rfl
      have ungiven' : ancestor.owner ∉ given.map Prod.fst := by
        intro again
        obtain ⟨⟨_, known, _, _, planned⟩, _⟩ :=
          step.needsOverride.1 (run.mem_given_iff.1 again).2
        rw [((planTeardown_eq_synthesize known).1 planned).1] at declared
        cases declared
      rw [run.declared?_other ungiven', step.declared?_other ne, declared]
      refine ⟨_, rfl, ?_⟩
      rw [run.declared?_other ungiven, step.declared?_given, Option.map_some,
        MethodDef.openedIf_overrideVia, MethodDef.overrideVia_openedIf,
        MethodDef.overrideVia_openedIf]
    · obtain ⟨own, declared, override⟩ := ih later
      have ne : name ≠ first := fun same =>
        (step.needsOverride.1 (run.mem_given_iff.1 (List.mem_map_of_mem later)).2).2 same
      rw [step.nextMethodKey_other ne, refAbove_of_shapes step.shapes] at override
      exact ⟨own, declared, override⟩

/-- A type has the methods that it had, some of them opened, and its override behind them. -/
theorem keyedMethods (run : Preparation d names m given m') {t t' : TypeDef}
    (known : m.findType? name = some t) (known' : m'.findType? name = some t') :
    ∃ overrides : List (MethodKey × MethodDef),
      t'.keyedMethods = (t.keyedMethods.map fun method =>
        (method.1, method.2.openedIf (m.opens (given.map Prod.snd) method.1))) ++ overrides ∧
      overrides.length = (if name ∈ given.map Prod.fst then 1 else 0) ∧
      ∀ override ∈ overrides, ∃ ancestor, m.Gives d name ancestor override.2 := by
  have next := nextMethodKey_of_findType? known
  have named := (mem_of_findType? known).2
  have named' := (mem_of_findType? known').2
  have each (i : Nat) (old : i = t.methods.length → name ∉ given.map Prod.fst) :
      t'.keyedMethods[i]? = (t.keyedMethods.map fun method =>
        (method.1, method.2.openedIf (m.opens (given.map Prod.snd) method.1)))[i]? := by
    have found : m'.findMethod? ⟨name, i⟩ = (m.findMethod? ⟨name, i⟩).map
        (MethodDef.openedIf (m.opens (given.map Prod.snd) ⟨name, i⟩)) := by
      refine run.findMethod?_other fun other listed same => ?_
      obtain rfl : name = other := congrArg MethodKey.owner same
      rw [next] at same
      exact old (congrArg MethodKey.index same) listed
    rw [findMethod?_of_known known', findMethod?_of_known known] at found
    rw [TypeDef.getElem?_keyedMethods, List.getElem?_map, TypeDef.getElem?_keyedMethods, found,
      Option.map_map, Option.map_map, named, named']
    rfl
  by_cases listed : name ∈ given.map Prod.fst
  · obtain ⟨⟨name', ancestor⟩, inside, same⟩ := List.mem_map.1 listed
    obtain rfl : name = name' := same.symm
    obtain ⟨method, gives, declared⟩ := run.declared?_given inside
    refine ⟨[(⟨name, t.methods.length⟩, method)], List.ext_getElem? fun i => ?_,
      (if_pos listed).symm, fun override only => ?_⟩
    · have length : (t.keyedMethods.map fun method =>
          (method.1, method.2.openedIf (m.opens (given.map Prod.snd) method.1))).length =
          t.methods.length := by
        simp [TypeDef.keyedMethods]
      obtain before | rfl | beyond := Nat.lt_trichotomy i t.methods.length
      · rw [each i fun last => absurd last (Nat.ne_of_lt before),
          List.getElem?_append_left (by rw [length]; exact before)]
      · have found := (declared?_eq_some.1 declared).2
        rw [next, findMethod?_of_known known'] at found
        rw [List.getElem?_append_right (Nat.le_of_eq length), length, Nat.sub_self,
          TypeDef.getElem?_keyedMethods, found, named']
        rfl
      · rw [each i fun last => absurd last.symm (Nat.ne_of_lt beyond),
          List.getElem?_eq_none (by rw [length]; omega),
          List.getElem?_eq_none (by rw [List.length_append, length]; exact beyond)]
    · rw [List.mem_singleton.1 only]
      exact ⟨ancestor, gives⟩
  · refine ⟨[], ?_, (if_neg listed).symm, fun _ none => by cases none⟩
    rw [List.append_nil]
    exact List.ext_getElem? fun i => each i fun _ => listed

/-! ## Nearest teardowns -/

/-- Where types with shorter chains come first, the override of a type whose chain ends calls the
first teardown above it that there is in the end. -/
theorem nearest_of_grounded (run : Preparation d names m given m') {t : TypeDef}
    (known : m.findType? name = some t) (grounded : m.Grounded t)
    (sorted : names.Pairwise fun a b => m.depth a ≤ m.depth b) (listed : (name, ancestor) ∈ given) :
    m.FirstUp (fun other =>
      if other = name then none else (m'.declared? d other).map Prod.fst) name ancestor := by
  induction run generalizing t with
  | done => cases listed
  | idle _ _ ih => exact ih known grounded sorted.of_cons listed
  | @given first rest m overridden given m' inherited after needed step run ih =>
    obtain ⟨shorter, sorted⟩ := List.pairwise_cons.1 sorted
    obtain same | later := List.mem_cons.1 listed
    · cases same
      have found : m.FirstUp (fun other => (m.declared? d other).map Prod.fst) name ancestor :=
        step.first.map Prod.fst
      refine found.congr fun k a there => ?_
      by_cases here : a = name
      · rw [if_pos here, here, step.absent, Option.map_none]
      -- What is above has a shorter chain, so it does not come after the name.
      have early : a ∉ given.map Prod.fst := by
        intro again
        have order := shorter a (run.mem_given_iff.1 again).1
        have above := grounded.depth_above known there
        have base : k = 0 := by omega
        rw [base, above_zero known] at there
        exact here (Option.some.inj there).symm
      rw [if_neg here, run.declared?_other early, step.declared?_other here, Option.map_map,
        Option.map_map]
      rfl
    · obtain ⟨t', known', same⟩ := findType?_of_shapes step.shapes known
      have nearest := ih known' (grounded.of_shapes step.shapes same)
        (by rw [depth_of_shapes step.shapes]; exact sorted) later
      rw [firstUp_of_shapes step.shapes] at nearest
      exact nearest

/-- The same of every override where no type is above itself. -/
theorem nearest (run : Preparation d names m given m') (acyclic : m.Acyclic)
    (sorted : names.Pairwise fun a b => m.depth a ≤ m.depth b) (listed : (name, ancestor) ∈ given) :
    m.FirstUp (fun other =>
      if other = name then none else (m'.declared? d other).map Prod.fst) name ancestor := by
  obtain ⟨t, known, _⟩ := (run.mem_given_iff.1 (List.mem_map_of_mem listed)).2
  have grounded := acyclic_iff.1 acyclic t (mem_of_findType? known).1
  exact run.nearest_of_grounded known grounded sorted listed

end Preparation

end Weave

end ReleaseWeaver
