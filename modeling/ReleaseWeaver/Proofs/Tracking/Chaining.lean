import ReleaseWeaver.Proofs.Tracking.Exits
import ReleaseWeaver.Proofs.Tracking.Succession
import ReleaseWeaver.Proofs.Weave.Overrides

/-
  The teardowns that a run adds, up a chain. A teardown that is new has no branches, returns at its
  end only, and calls the nearest teardown above its type first of all; and without release
  commands, only a type whose handles are tracked has got it. So the released handle targets above
  a class, with whatever types in between, are a chain of teardowns, if below the first of them
  every teardown is new. Main statements: each of these teardowns hands over to the one above it
  (`ReleaseChain.isChain`), and a release of an object of the class enters the lowest one
  (`ReleaseChain.enters`).
-/

namespace ReleaseWeaver

/-- Each kept item is related to the next kept one, with nothing kept in between. -/
theorem isChain_filterMap {α β : Type} {f : α → Option β} {r : β → β → Prop} {l : List α}
    (related : ∀ (i j : Nat) a b x y, i < j → l[i]? = some a → l[j]? = some b → f a = some x →
      f b = some y → (∀ k c, i < k → k < j → l[k]? = some c → f c = none) → r x y) :
    (l.filterMap f).IsChain r := by
  induction l with
  | nil => exact .nil
  | cons a rest ih =>
    have chain := ih fun i j b c x y before here there kept kept' between =>
      related (i + 1) (j + 1) b c x y (Nat.succ_lt_succ before) here there kept kept'
        fun k d after before' inside => by
          obtain ⟨k, rfl⟩ := Nat.exists_eq_succ_of_ne_zero (Nat.ne_zero_of_lt after)
          exact between k d (Nat.lt_of_succ_lt_succ after) (Nat.lt_of_succ_lt_succ before') inside
    cases kept : f a with
    | none =>
      rw [List.filterMap_cons_none kept]
      exact chain
    | some x =>
      rw [List.filterMap_cons_some kept, List.isChain_cons]
      refine ⟨fun y next => ?_, chain⟩
      rw [List.head?_filterMap] at next
      obtain ⟨before, b, after, rfl, kept', nothing⟩ := List.findSome?_eq_some_iff.1 next
      refine related 0 (before.length + 1) a b x y (Nat.zero_lt_succ _) rfl ?_ kept kept'
        fun k c positive inside there => ?_
      · simp
      · obtain ⟨k, rfl⟩ := Nat.exists_eq_succ_of_ne_zero (Nat.ne_zero_of_lt positive)
        rw [List.getElem?_cons_succ, List.getElem?_append_left (Nat.lt_of_succ_lt_succ inside)]
          at there
        exact nothing c (List.mem_of_getElem? there)

theorem Instr.isRet_redirect (i : Instr) (source goal : Handle) :
    (i.redirect source goal).isRet = i.isRet := by
  cases i <;> rfl

namespace Body

variable {b : Body} {c : WeaveContext} {e : Insertions}

theorem straight_rewritten (added : ∀ i ∈ e.all, i.Straight)
    (straight : ∀ i ∈ b.instrs, i.target? = none) :
    ∀ i ∈ (b.rewritten c e).instrs, i.target? = none := by
  have last : ∀ i ∈ e.last, i.target? = none := fun i listed =>
    (added i (List.mem_append_right _ (List.mem_append_right _ listed))).target
  intro i listed
  rw [instrs, lines_rewritten c last] at listed
  obtain ⟨l, inside, rfl⟩ := List.mem_map.1 listed
  obtain ⟨i, placed, same⟩ := Insertions.mem_applied inside
  have none : i.target? = none := by
    obtain new | old := placed
    · exact (added i new).target
    · exact straight i (List.mem_map_of_mem old)
  obtain same | ⟨source, goal, same⟩ := same
  · rw [same, none]
  · rw [same, Instr.redirect_of_target?_none none, none]

/-- What goes in does not return. -/
theorem LeavesLast.rewritten (leaves : b.LeavesLast) (added : ∀ i ∈ e.all, i.Straight)
    {exit : Handle} (final : b.finalExit? = some exit) : (b.rewritten c e).LeavesLast := by
  have last : ∀ i ∈ e.last, i.target? = none := fun i listed =>
    (added i (List.mem_append_right _ (List.mem_append_right _ listed))).target
  obtain ⟨before, lines, _⟩ := lines_rewritten_of_closed (c := c) added final
  rw [← List.append_assoc] at lines
  intro i listed
  rw [instrs, lines, List.map_append, List.map_singleton, List.dropLast_concat] at listed
  obtain ⟨l, inside, rfl⟩ := List.mem_map.1 listed
  have here : l ∈ (b.rewritten c e).lines := by
    rw [lines]
    exact List.mem_append_left _ inside
  rw [lines_rewritten c last] at here
  obtain ⟨i, placed, same⟩ := Insertions.mem_applied here
  have returns : l.2.isRet = i.isRet := by
    obtain same | ⟨source, goal, same⟩ := same
    · rw [same]
    · rw [same, Instr.isRet_redirect]
  rw [returns]
  obtain new | old := placed
  · exact (added i new).notRet
  -- An old line that returns is the last one, whose name nothing before it has.
  by_contra ret
  have named : l.1 = exit := by
    obtain ⟨init, split⟩ := List.getLast?_eq_some_iff.1 (finalExit?_eq_some.1 final)
    rw [split] at old
    obtain early | last := List.mem_append.1 old
    · refine absurd (leaves i ?_) ret
      rw [instrs, split, List.map_append, List.map_singleton, List.dropLast_concat]
      exact List.mem_map_of_mem early
    · exact congrArg Prod.fst (List.mem_singleton.1 last)
  have once := (b.rewritten c e).nodup_handles
  rw [handles, lines, List.map_append, List.map_singleton] at once
  refine (List.disjoint_of_nodup_append once) (List.mem_map_of_mem inside) ?_
  rw [named]
  exact List.mem_singleton_self exit

end Body

/-! ## Teardowns -/

namespace Module

variable {m : Module} {d : Disposal} {name : String} {key : MethodKey} {own : MethodDef}

theorem isTeardown_of_declared (declared : m.declared? d name = some (key, own)) :
    d.isTeardown own = true := by
  obtain ⟨teardown, found⟩ := declared?_eq_some.1 declared
  have here := teardown.here
  rw [found, Option.map_some] at here
  exact Option.some.inj here

/-- A teardown is among what answers a release. -/
theorem mem_answering_of_declared (declared : m.declared? d name = some (key, own)) :
    key ∈ m.answering name d.release 0 := by
  obtain ⟨teardown, found⟩ := declared?_eq_some.1 declared
  exact mem_answering.2
    ⟨teardown.owned, own, found, answersTo_of_isTeardown (isTeardown_of_declared declared)⟩

/-- A release that starts at a type finds the teardown of the type, if nothing else there answers
it. -/
theorem lookup_declared {p : Machine.Program} {b : Body}
    (declared : p.module.declared? d name = some (key, own)) (body : own.body = some b)
    (bare : p.natives (Machine.Program.nativeName name d.release) = none)
    (sole : ∀ other ∈ p.module.answering name d.release 0, other = key) :
    p.lookup name d.release 0 = some (.body key own b) := by
  obtain ⟨teardown, found⟩ := declared?_eq_some.1 declared
  obtain ⟨owner, known, _⟩ := findMethod?_eq_some.1 found
  have owned : key.owner = name := teardown.owned
  subst owned
  exact Machine.Program.lookup_eq_body (above_zero known)
    (fun j before => absurd before (Nat.not_lt_zero j)) bare found
    (answersTo_of_isTeardown (isTeardown_of_declared declared)) body sole

end Module

namespace Weave

open ReleaseWeaver.Module

variable {c : WeaveContext} {m : Module} {outcome : WeaveOutcome} {key overridden : MethodKey}
  {method own : MethodDef} {t : TypeDef} {k : Nat}

namespace Completed

variable (completed : Completed c m outcome) (new : m.findMethod? key = none)
  (found : outcome.module.findMethod? key = some method)

include completed new found

/-- Without release commands, a new teardown is that of a type whose handles are tracked. -/
theorem releases_of_new (unmarked : c.markers.hasFamily .releaseCommands = false) :
    (reports c m).releases .trackHandles key.owner = true := by
  obtain ⟨names, given, run, _, named⟩ := preparation_start c m
  obtain ⟨ancestor, listed, _⟩ := completed.given_of_new run new found
  obtain ⟨among, needed⟩ := run.mem_given_iff.1 (List.mem_map_of_mem listed)
  obtain ⟨⟨t, known⟩, family, target, selected, same⟩ := (named _).1 among
  refine releases_iff.2 ⟨⟨target, ?_, same⟩, ((needsOverride_iff_fault known).1 needed).1⟩
  cases family with
  | trackHandles => exact selected
  | releaseCommands =>
    rw [select_eq_nil unmarked] at selected
    cases selected

/-- A new teardown has no branches and returns at its end only. -/
theorem shape_of_new {b : Body} (body : method.body = some b) :
    (∀ i ∈ b.instrs, i.target? = none) ∧ b.LeavesLast := by
  obtain ⟨names, given, run, _, _⟩ := preparation_start c m
  obtain ⟨ancestor, listed, next⟩ := completed.given_of_new run new found
  obtain ⟨own, _, override⟩ := run.delegates listed
  rw [← next] at override
  obtain ⟨_, before⟩ := declared?_eq_some.1 override
  have after := completed.findMethod? key
  rw [before, found, Option.map_some] at after
  cases after
  cases body
  refine ⟨Body.straight_rewritten straight_all_inserted (forall_mem_three rfl rfl rfl),
    Body.LeavesLast.rewritten (fun i listed => ?_) straight_all_inserted rfl⟩
  have among : i ∈ [Instr.ldthis, .call _] := listed
  simp only [List.mem_cons, List.not_mem_nil, or_false] at among
  obtain rfl | rfl := among <;> rfl

/-- A new teardown calls the nearest one above its type. -/
theorem calls_of_new (known : m.findType? key.owner = some t) (grounded : m.Grounded t)
    (there : m.above k key.owner = some overridden.owner) (strict : overridden.owner ≠ key.owner)
    (declared : outcome.module.declared? c.disposal overridden.owner = some (overridden, own))
    (between : ∀ j < k, ∀ b, m.above j key.owner = some b → b ≠ key.owner →
      outcome.module.declared? c.disposal b = none) :
    ∃ ref, method.baseCall? = some (own.refIn ref) ∧
      ref.definitionName = overridden.owner := by
  obtain ⟨names, given, run, sorted, _⟩ := preparation_start c m
  obtain ⟨ancestor, listed, next⟩ := completed.given_of_new run new found
  obtain ⟨override, own', owner, override', knownO, own'', calls, _⟩ :=
    completed.delegates run listed
  rw [← next] at override'
  have declares (other : String) : (outcome.module.declared? c.disposal other).map Prod.fst =
      ((start c m).declared? c.disposal other).map Prod.fst := by
    rw [completed.declared?, Option.map_map]
    rfl
  have first := run.nearest_of_grounded known grounded sorted listed
  simp only [← declares] at first
  have first' : m.FirstUp (fun other => if other = key.owner then none else
      (outcome.module.declared? c.disposal other).map Prod.fst) key.owner overridden := by
    refine ⟨k, _, there, ?_, fun j before b reached => ?_⟩
    · dsimp only
      rw [if_neg strict, declared, Option.map_some]
    · dsimp only
      split
      · rfl
      · next other => rw [between j before b reached other, Option.map_none]
  obtain rfl : ancestor = overridden := first.unique first'
  have same : override = method := by
    have found' := (declared?_eq_some.1 override').2
    rw [found] at found'
    exact (Option.some.inj found').symm
  have same' : own' = own := by
    rw [declared?_of_known knownO, own''] at declared
    exact congrArg Prod.snd (Option.some.inj declared)
  subst same same'
  exact ⟨_, calls, definitionName_refAbove there strict⟩

/-- At run time a new teardown hands over to the nearest one above its type, where nothing else
answers its call. -/
theorem handsOver {p : Machine.Program} (woven : p.module = outcome.module)
    (known : m.findType? key.owner = some t) (grounded : m.Grounded t)
    (there : m.above k key.owner = some overridden.owner) (strict : overridden.owner ≠ key.owner)
    (declared : outcome.module.declared? c.disposal overridden.owner = some (overridden, own))
    (between : ∀ j < k, ∀ b, m.above j key.owner = some b → b ≠ key.owner →
      outcome.module.declared? c.disposal b = none)
    {b : Body} (body : own.body = some b)
    (bare : p.natives (Machine.Program.nativeName overridden.owner c.config.releaseMethod) = none)
    (sole : ∀ other ∈ p.module.answering overridden.owner c.config.releaseMethod 0,
      other = overridden) : p.HandsOver overridden key := by
  have only {d : MethodDef} {b : Body} (here : Machine.Program.HasBody p.module key d b) :
      d = method ∧ method.body = some b := by
    obtain ⟨found', body⟩ := Machine.Program.hasBody_iff.1 here
    rw [woven, found] at found'
    cases found'
    exact ⟨rfl, body⟩
  refine ⟨fun d b here => (completed.shape_of_new new found (only here).2).1, fun d b' here => ?_⟩
  obtain ⟨ref, calls, named⟩ :=
    completed.calls_of_new new found known grounded there strict declared between
  obtain ⟨release, plain, hasThis⟩ := refIn_of_isTeardown (isTeardown_of_declared declared) ref
  obtain ⟨more, instrs⟩ : ∃ more,
      b'.instrs = .ldarg 0 :: .invoke (own.refIn ref) false :: more := by
    unfold MethodDef.baseCall? at calls
    rw [(only here).2] at calls
    split at calls
    · next call more begins =>
      cases calls
      exact ⟨more, Option.some.inj begins⟩
    · cases calls
  refine ⟨_, more, instrs, by rw [MethodRef.arity, hasThis, plain]; rfl, own, b, ?_⟩
  rw [← woven] at declared
  rw [release, plain]
  show p.lookup ref.definitionName _ _ = _
  rw [named]
  exact lookup_declared declared body bare sole

end Completed

end Weave

/-! ## Chains of targets -/

/-- What else the order of a chain depends on. -/
inductive OrderCondition where
  /-- The container is the default one, … -/
  | container
  /-- … and so are the helper … -/
  | helper
  /-- … and the release method. -/
  | release
  /-- Releases through the contract, and those of the library, are dispatched. -/
  | dispatched
  /-- No other handle target has a tracking field of the same name. -/
  | alone
  /-- The branches of the targets stay in their bodies. -/
  | within
  /-- The base chain ends. -/
  | grounded
  /-- No target has the name of a class that the library releases. -/
  | bare
deriving DecidableEq

def OrderCondition.all : List OrderCondition :=
  [container, helper, release, dispatched, alone, within, grounded, bare]

theorem OrderCondition.mem_all (condition : OrderCondition) : condition ∈ OrderCondition.all := by
  cases condition <;> decide

instance {good : OrderCondition → Prop} [DecidablePred good] :
    Decidable (∀ condition, good condition) :=
  decidable_of_iff (∀ condition ∈ OrderCondition.all, good condition)
    ⟨fun each condition => each condition condition.mem_all, fun each condition _ => each condition⟩

namespace Module

open Machine (Watch Program)

/-- The entry of a handle target that a run releases. -/
def releasedTarget? (m : Module) (config : Config) (typeName : String) : Option TargetReport :=
  (m.weave config).entries.find? fun entry =>
    entry.family = .trackHandles && entry.typeName == typeName && entry.isReleased

/-- The handle targets on the base chain of a type that a run releases, the root-most one first. -/
def releasedChain (m : Module) (config : Config) (t : TypeDef) : List TargetReport :=
  ((m.ancestors t).filterMap fun a => m.releasedTarget? config a.definitionName).reverse

/-- Their tracking fields. -/
def trackingFields (m : Module) (config : Config) (t : TypeDef) : List String :=
  (m.releasedChain config t).map fun entry => m.trackingFieldOf config entry.typeName

/-- Whether the type is below a handle target that a run releases. -/
def isBelowReleased (m : Module) (config : Config) (a : TypeDef) : Bool :=
  ((m.ancestors a).drop 1).any fun b => (m.releasedTarget? config b.definitionName).isSome

/-- A chain of released handle targets, of which the type is the lowest one. Below the first of
them every teardown is new, the first one's returns at its end only, no type has anything else that
answers a release, and the tracking fields are used by nothing else. -/
@[mk_iff]
structure ReleaseChain (m : Module) (config : Config) (t : TypeDef) : Prop where
  ended : (m.weave config).result.isOk = true
  unmarked : (MarkerTable.collect m config.markers).hasFamily .releaseCommands = false
  lowest : (m.releasedTarget? config t.definitionName).isSome = true
  fresh : ∀ a ∈ m.ancestors t, m.isBelowReleased config a = true →
    ∀ key ∈ (m.weave config).module.answering a.definitionName config.releaseMethod 0,
      (m.findMethod? key).isNone = true
  sole : ∀ a ∈ m.ancestors t,
    ((m.weave config).module.answering a.definitionName config.releaseMethod 0).length ≤ 1
  leaves : ∀ entry ∈ (m.releasedChain config t).head?,
    ∀ d ∈ (m.weave config).module.findMethod? (m.watch config entry.target).teardown,
      ∀ b ∈ d.body, b.LeavesLast
  distinct : (m.trackingFields config t).Nodup
  unused : ∀ field ∈ m.trackingFields config t, m.Avoids field

instance (m : Module) (config : Config) (t : TypeDef) : Decidable (m.ReleaseChain config t) :=
  decidable_of_iff _ (releaseChain_iff m config t).symm

/-- Whether the calls of a parameterless method are dispatched. -/
def dispatchesTo (m : Module) (typeName method : String) : Bool :=
  Program.isVirtualIn m method 0 (m.types.length + 1) typeName

/-- What a condition asks of a chain. -/
def Meets (m : Module) (config : Config) (t : TypeDef) : OrderCondition → Prop
  | .container => config.trackingContainer = Config.default.trackingContainer
  | .helper => config.registrationHelper = Config.default.registrationHelper
  | .release => config.releaseMethod = Config.default.releaseMethod
  | .dispatched =>
    (m.weave config).module.dispatchesTo config.disposalContract.name config.releaseMethod = true ∧
      (m.weave config).module.dispatchesTo Machine.Reactive.disposable.definitionName "Dispose" =
        true
  | .alone => ∀ entry ∈ m.releasedChain config t, m.OwnsField config entry.typeName
  | .within => ∀ entry ∈ m.releasedChain config t, m.BranchesWithin entry.typeName
  | .grounded => m.Grounded t
  | .bare => ∀ entry ∈ m.releasedChain config t, (Machine.Reactive.natives
      (Program.nativeName entry.typeName config.releaseMethod)).isNone = true

instance (m : Module) (config : Config) (t : TypeDef) :
    (condition : OrderCondition) → Decidable (m.Meets config t condition)
  | .container => inferInstanceAs (Decidable (_ = _))
  | .helper => inferInstanceAs (Decidable (_ = _))
  | .release => inferInstanceAs (Decidable (_ = _))
  | .dispatched => inferInstanceAs (Decidable (_ = _ ∧ _ = _))
  | .alone => inferInstanceAs
      (Decidable (∀ entry ∈ m.releasedChain config t, m.OwnsField config entry.typeName))
  | .within => inferInstanceAs
      (Decidable (∀ entry ∈ m.releasedChain config t, m.BranchesWithin entry.typeName))
  | .grounded => inferInstanceAs (Decidable (m.Grounded t))
  | .bare => inferInstanceAs (Decidable (∀ entry ∈ m.releasedChain config t,
      (Machine.Reactive.natives
        (Program.nativeName entry.typeName config.releaseMethod)).isNone = true))

/-- Nothing is in the way of the order of a chain. -/
def Orderly (m : Module) (config : Config) (t : TypeDef) : Prop :=
  ∀ condition, m.Meets config t condition

instance (m : Module) (config : Config) (t : TypeDef) : Decidable (m.Orderly config t) :=
  inferInstanceAs (Decidable (∀ condition, m.Meets config t condition))

variable {m : Module} {config : Config} {t : TypeDef} {entry : TargetReport} {name : String}

theorem releasedTarget?_eq_some (found : m.releasedTarget? config name = some entry) :
    entry ∈ (m.weave config).entries ∧ entry.family = .trackHandles ∧ entry.typeName = name ∧
      entry.isReleased = true := by
  have listed := List.mem_of_find?_eq_some found
  have fits := List.find?_some found
  simp only [Bool.and_eq_true, decide_eq_true_eq, beq_iff_eq] at fits
  exact ⟨listed, fits.1.1, fits.1.2, fits.2⟩

theorem mem_releasedChain : entry ∈ m.releasedChain config t ↔
    ∃ a ∈ m.ancestors t, m.releasedTarget? config a.definitionName = some entry := by
  rw [releasedChain, List.mem_reverse, List.mem_filterMap]

end Module

namespace Weave

open ReleaseWeaver.Module

variable {c : WeaveContext} {m : Module} {name : String} {entry : TargetReport}

theorem Completed.releasedTarget?_isSome (completed : Completed c m (m.weave c.config)) :
    (m.releasedTarget? c.config name).isSome = true ↔
      (reports c m).releases .trackHandles name = true := by
  have entries : (m.weave c.config).entries = (reports c m).targets := by
    rw [WeaveOutcome.entries, completed.result]
  rw [releasedTarget?, entries, List.find?_isSome, WeaveReport.releases, List.any_eq_true]

/-- A released target declares a teardown with a body in the end, the one that is watched. -/
theorem Completed.declared?_released (completed : Completed c m (m.weave c.config))
    (found : m.releasedTarget? c.config name = some entry) : ∃ own b,
    (m.weave c.config).module.declared? c.disposal name =
        some ((m.watch c.config entry.target).teardown, own) ∧ own.body = some b := by
  obtain ⟨_, _, rfl, _⟩ := releasedTarget?_eq_some found
  have bound := completed.weavable.bound
  have released := completed.releasedTarget?_isSome.1 (Option.isSome_iff_exists.2 ⟨_, found⟩)
  obtain ⟨t, teardown, known, _, _, planned⟩ := planned_of_releases bound.markers released
  obtain ⟨own, exit, own', final⟩ := ownTeardown?_of_requiredPlan planned
  obtain ⟨b, body, _⟩ : ∃ b, own.body = some b ∧ b.finalExit? = some exit :=
    Option.bind_eq_some_iff.1 final
  have declared := completed.declared? entry.typeName
  rw [declared?_of_known known, own', Option.map_some] at declared
  refine ⟨own.rewritten c (m.inserted c teardown own), b.rewritten c _, ?_,
    by rw [MethodDef.rewritten, body, Option.map_some]⟩
  rw [declared]
  congr 2
  have context : (⟨c.config, c.collaborators, MarkerTable.collect m c.config.markers⟩ :
      WeaveContext) = c := by
    rw [← bound.markers]
  unfold watch
  rw [bound.collaborators]
  dsimp only
  rw [context, show ((m.weave c.config).module.findType? entry.target.typeName).bind
    (fun t => t.ownTeardown? c.disposal) = _ from declared]
  rfl

end Weave

/-! ## Teardowns of a chain -/

namespace Module.ReleaseChain

open Machine (Program)
open Weave (Completed)

variable {c : WeaveContext} {m : Module} {t a b : TypeDef} {entry entry' : TargetReport}
  {key : MethodKey} {own : MethodDef} {i j : Nat} {p : Program}
  (chain : m.ReleaseChain c.config t) (grounded : m.Grounded t)

include chain

/-- A teardown of a chain is all that answers a release there. -/
theorem answers_only (above : a ∈ m.ancestors t)
    (declared : (m.weave c.config).module.declared? c.disposal a.definitionName = some (key, own)) :
    ∀ other ∈ (m.weave c.config).module.answering a.definitionName c.config.releaseMethod 0,
      other = key := by
  intro other listed
  have answers : key ∈ (m.weave c.config).module.answering a.definitionName
    c.config.releaseMethod 0 := mem_answering_of_declared declared
  obtain ⟨i, here⟩ := List.mem_iff_getElem?.1 listed
  obtain ⟨j, there⟩ := List.mem_iff_getElem?.1 answers
  have few := chain.sole a above
  obtain ⟨inside, _⟩ := List.getElem?_eq_some_iff.1 here
  obtain ⟨inside', _⟩ := List.getElem?_eq_some_iff.1 there
  obtain rfl : i = j := by omega
  exact Option.some.inj (here.symm.trans there)

include grounded

/-- A teardown below a released target is new. -/
theorem new_of_declared (before : i < j) (here : m.climb i t = some a)
    (there : m.climb j t = some b)
    (released : (m.releasedTarget? c.config b.definitionName).isSome = true)
    (declared : (m.weave c.config).module.declared? c.disposal a.definitionName = some (key, own)) :
    m.findMethod? key = none := by
  have above : a ∈ m.ancestors t :=
    List.mem_of_getElem? ((grounded.getElem?_ancestors i).trans here)
  refine Option.isNone_iff_eq_none.1 <| chain.fresh a above (List.any_eq_true.2 ⟨b, ?_, released⟩)
    key (mem_answering_of_declared declared)
  refine List.mem_of_getElem? (i := j - i - 1) ?_
  rw [List.getElem?_drop, (grounded.of_climb here).getElem?_ancestors,
    show 1 + (j - i - 1) = j - i by omega]
  rw [show j = i + (j - i) by omega, climb_add, here, Option.bind_some] at there
  exact there

/-- A released target hands over to the next one above it. -/
theorem handsOver (listed : t ∈ m.types) (orderly : m.Orderly c.config t)
    (completed : Completed c m (m.weave c.config))
    (unmarked : c.markers.hasFamily .releaseCommands = false)
    (woven : p.module = (m.weave c.config).module) (library : p.natives = Machine.Reactive.natives)
    (before : i < j) (here : m.climb i t = some a) (there : m.climb j t = some b)
    (found : m.releasedTarget? c.config a.definitionName = some entry)
    (found' : m.releasedTarget? c.config b.definitionName = some entry')
    (between : ∀ k q, i < k → k < j → m.climb k t = some q →
      m.releasedTarget? c.config q.definitionName = none) :
    p.HandsOver (m.watch c.config entry'.target).teardown
      (m.watch c.config entry.target).teardown := by
  have released : (m.releasedTarget? c.config b.definitionName).isSome = true :=
    Option.isSome_iff_exists.2 ⟨_, found'⟩
  have above : b ∈ m.ancestors t :=
    List.mem_of_getElem? ((grounded.getElem?_ancestors j).trans there)
  have known : m.findType? a.definitionName = some a :=
    findType?_of_mem (mem_types_of_climb listed here)
  have groundedA : m.Grounded a := grounded.of_climb here
  obtain ⟨own, _, declared, _⟩ := completed.declared?_released found
  obtain ⟨own', body, declared', hasBody⟩ := completed.declared?_released found'
  have new := chain.new_of_declared grounded before here there released declared
  have named := (declared?_eq_some.1 declared).1.owned
  have named' := (declared?_eq_some.1 declared').1.owned
  obtain ⟨k, rfl⟩ : ∃ k, j = i + (k + 1) := ⟨j - i - 1, by omega⟩
  have further := there
  rw [climb_add, here, Option.bind_some] at further
  have upward : m.above (k + 1) a.definitionName = some b.definitionName := by
    rw [above_of_known known, further, Option.map_some]
  have nothing : ∀ q < k + 1, ∀ x, m.above q a.definitionName = some x → x ≠ a.definitionName →
      (m.weave c.config).module.declared? c.disposal x = none := by
    intro q inside x reached other
    rw [above_of_known known] at reached
    obtain ⟨u, climbed, rfl⟩ := Option.map_eq_some_iff.1 reached
    have reached : m.climb (i + q) t = some u := by
      rw [climb_add, here, Option.bind_some, climbed]
    have strict : q ≠ 0 := by
      rintro rfl
      cases climbed
      exact other rfl
    by_contra some
    obtain ⟨⟨key, x⟩, declaredU⟩ := Option.ne_none_iff_exists'.1 some
    have newU := chain.new_of_declared grounded (by omega) reached there released declaredU
    obtain ⟨teardownU, foundU⟩ := declared?_eq_some.1 declaredU
    have releasedU := completed.releasedTarget?_isSome.2
      (completed.releases_of_new newU foundU unmarked)
    rw [teardownU.owned, between (i + q) u (by omega) (by omega) reached] at releasedU
    cases releasedU
  have strict : b.definitionName ≠ a.definitionName := fun same =>
    groundedA.above_ne known k (same ▸ upward)
  have bare : p.natives (Program.nativeName b.definitionName c.config.releaseMethod) = none := by
    obtain ⟨_, _, same, _⟩ := releasedTarget?_eq_some found'
    rw [library, ← same]
    exact Option.isNone_iff_eq_none.1
      (orderly .bare entry' (mem_releasedChain.2 ⟨b, above, found'⟩))
  have sole := chain.answers_only above declared'
  rw [← woven] at sole
  rw [← named'] at declared' bare sole
  rw [← named] at known nothing
  rw [← named, ← named'] at upward strict
  exact completed.handsOver new (declared?_eq_some.1 declared).2 woven known groundedA upward strict
    declared' nothing hasBody bare sole

/-- The teardown of each target returns at its end only. -/
theorem leavesLast (completed : Completed c m (m.weave c.config)) (here : m.climb i t = some a)
    (found : m.releasedTarget? c.config a.definitionName = some entry) {d : MethodDef} {b : Body}
    (known : Program.HasBody (m.weave c.config).module
      (m.watch c.config entry.target).teardown d b) : b.LeavesLast := by
  obtain ⟨found', body⟩ := Program.hasBody_iff.1 known
  have place := (grounded.getElem?_ancestors i).trans here
  by_cases below : m.isBelowReleased c.config a = true
  · obtain ⟨own, _, declared, _⟩ := completed.declared?_released found
    have new := chain.fresh a (List.mem_of_getElem? place) below _
      (mem_answering_of_declared declared)
    exact (completed.shape_of_new (Option.isNone_iff_eq_none.1 new) found' body).2
  · -- Nothing above is released, so the target is the first one.
    refine chain.leaves entry ?_ d found' b body
    obtain ⟨inside, same⟩ := List.getElem?_eq_some_iff.1 place
    have parts : m.ancestors t = (m.ancestors t).take i ++ a :: (m.ancestors a).drop 1 := by
      rw [← grounded.drop_ancestors here, List.drop_drop, ← same, List.getElem_cons_drop,
        List.take_append_drop]
    have none : ((m.ancestors a).drop 1).filterMap
        (fun b => m.releasedTarget? c.config b.definitionName) = [] := by
      refine List.filterMap_eq_nil_iff.2 fun b listed => ?_
      have unreleased := List.any_eq_false.1 (Bool.eq_false_iff.2 below) b listed
      simpa using unreleased
    have kept : (a :: (m.ancestors a).drop 1).filterMap
        (fun b => m.releasedTarget? c.config b.definitionName) = [entry] := by
      simp only [List.filterMap_cons, found, none]
    rw [releasedChain, parts, List.filterMap_append, kept, List.reverse_append]
    rfl

omit grounded in
theorem tracks (orderly : m.Orderly c.config t) (listed : entry ∈ m.releasedChain c.config t) :
    m.Tracks c.config entry := by
  obtain ⟨a, _, found⟩ := mem_releasedChain.1 listed
  obtain ⟨reported, family, _, released⟩ := releasedTarget?_eq_some found
  exact
    { reported := reported
      family := family
      released := released
      unused := chain.unused _ (List.mem_map_of_mem listed)
      alone := orderly .alone entry listed
      container := orderly .container
      helper := orderly .helper
      release := orderly .release }

theorem exists_lowest :
    ∃ entry ∈ m.releasedChain c.config t, entry.typeName = t.definitionName := by
  obtain ⟨lowest, found⟩ := Option.isSome_iff_exists.1 chain.lowest
  obtain ⟨_, _, same, _⟩ := releasedTarget?_eq_some found
  exact ⟨lowest, mem_releasedChain.2
    ⟨t, List.mem_of_getElem? (grounded.getElem?_ancestors 0), found⟩, same⟩

omit chain grounded in
theorem field_watch (completed : Completed c m (m.weave c.config)) (target : Target) :
    (m.watch c.config target).field = m.trackingFieldOf c.config target.typeName := by
  unfold watch
  rw [completed.weavable.bound.collaborators]

/-- The teardowns of a chain hand over to one another. -/
theorem isChain (listed : t ∈ m.types) (orderly : m.Orderly c.config t)
    (completed : Completed c m (m.weave c.config))
    (unmarked : c.markers.hasFamily .releaseCommands = false)
    (woven : p.module = (m.weave c.config).module)
    (library : p.natives = Machine.Reactive.natives) :
    ((m.releasedChain c.config t).map fun entry => m.watch c.config entry.target).IsChain
      fun w w' => p.HandsOver w.teardown w'.teardown := by
  rw [List.isChain_map, releasedChain, List.isChain_reverse]
  refine isChain_filterMap fun i j a b entry entry' before here there found found' between => ?_
  rw [grounded.getElem?_ancestors] at here there
  refine chain.handsOver grounded listed orderly completed unmarked woven library before here there
    found found' fun k q after before' reached => between k q after before' ?_
  rw [grounded.getElem?_ancestors, reached]

/-- A release that is dispatched to the lowest target enters its teardown. -/
theorem enters (orderly : m.Orderly c.config t) (completed : Completed c m (m.weave c.config))
    (woven : p.module = (m.weave c.config).module) (library : p.natives = Machine.Reactive.natives)
    {memory : Machine.Memory} {call : Machine.Call} {o : Nat}
    (start : p.startClass memory.heap call = .ok t.definitionName)
    (named : call.method.name = c.config.releaseMethod) (plain : call.method.params = [])
    (receiver : call.args = [.object o])
    (last : (m.releasedChain c.config t).getLast? = some entry) :
    ∃ memory' f, p.perform memory [] (.invoke call) = .running ⟨memory', .frame f, []⟩ ∧
      f.RunsOn (m.watch c.config entry.target).teardown o := by
  obtain ⟨lowest, found⟩ := Option.isSome_iff_exists.1 chain.lowest
  have first : (m.ancestors t)[0]? = some t := grounded.getElem?_ancestors 0
  have head : m.ancestors t = t :: (m.ancestors t).drop 1 := by
    obtain ⟨inside, same⟩ := List.getElem?_eq_some_iff.1 first
    have parts := List.getElem_cons_drop inside
    rw [same, List.drop_zero] at parts
    exact parts.symm
  obtain rfl : lowest = entry := by
    rw [releasedChain, List.getLast?_reverse, List.head?_filterMap, head, List.findSome?_cons,
      found] at last
    exact Option.some.inj last
  have listed : lowest ∈ m.releasedChain c.config t := List.mem_of_getLast? last
  obtain ⟨own, b, declared, body⟩ := completed.declared?_released found
  have sole := chain.answers_only (List.mem_of_getElem? first) declared
  have bare : p.natives (Program.nativeName t.definitionName c.config.releaseMethod) = none := by
    obtain ⟨_, _, same, _⟩ := releasedTarget?_eq_some found
    rw [library, ← same]
    exact Option.isNone_iff_eq_none.1 (orderly .bare lowest listed)
  rw [← woven] at declared sole
  have code := lookup_declared declared body bare sole
  refine ⟨memory, _, Program.invoke_body start (by rw [named, plain]; exact code), rfl, ?_⟩
  rw [receiver]
  rfl

end Module.ReleaseChain

end ReleaseWeaver
