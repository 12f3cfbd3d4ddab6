import Mathlib.Logic.Relation
import ReleaseWeaver.Proofs.Metadata.Chains
import ReleaseWeaver.Weave.Teardown

/-
  What a walk up the base chain finds. The walk is cut off after as many types as the module has,
  whatever the chain does: it may end, leave the module or run into a cycle. Main statement: the
  walk lists exactly the types that base types lead to, each for the first time at its distance, so
  a type is disposable if any of them lists the contract, and its teardown is that of the nearest
  one which declares any.
-/

namespace ReleaseWeaver

namespace Module

variable {m : Module} {d : Disposal} {t a b : TypeDef} {j k : Nat}

/-! ## What base types lead to -/

def IsBase (m : Module) (t base : TypeDef) : Prop := m.baseOf? t = some base

/-- The one type is the other or lies above it. -/
def Inherits (m : Module) : TypeDef → TypeDef → Prop := Relation.ReflTransGen m.IsBase

/-- So many base types up, and no fewer, is the type. -/
def AtDistance (m : Module) (t : TypeDef) (k : Nat) (a : TypeDef) : Prop :=
  m.climb k t = some a ∧ ∀ j < k, m.climb j t ≠ some a

/-- No type from `t` upwards lies above itself. -/
def AcyclicAbove (m : Module) (t : TypeDef) : Prop :=
  ∀ a, m.Inherits t a → ¬Relation.TransGen m.IsBase a a

theorem climb_succ_eq_some :
    m.climb (k + 1) t = some a ↔ ∃ b, m.climb k t = some b ∧ m.IsBase b a := by
  have last (b : TypeDef) : m.climb 1 b = some a ↔ m.IsBase b a := by
    rw [climb, show m.climb 0 = some from rfl, Option.bind_fun_some]
    rfl
  rw [climb_add, Option.bind_eq_some_iff]
  exact exists_congr fun b => and_congr_right fun _ => last b

theorem inherits_iff : m.Inherits t a ↔ ∃ k, m.climb k t = some a := by
  constructor
  · intro inherits
    induction inherits with
    | refl => exact ⟨0, rfl⟩
    | tail _ base ih =>
      obtain ⟨k, climbed⟩ := ih
      exact ⟨k + 1, climb_succ_eq_some.2 ⟨_, climbed, base⟩⟩
  · rintro ⟨k, climbed⟩
    induction k generalizing a with
    | zero =>
      cases climbed
      exact .refl
    | succ k ih =>
      obtain ⟨b, climbed, base⟩ := climb_succ_eq_some.1 climbed
      exact (ih climbed).tail base

theorem transGen_of_climb (climbed : m.climb (k + 1) t = some a) :
    Relation.TransGen m.IsBase t a := by
  obtain ⟨b, climbed, base⟩ := climb_succ_eq_some.1 climbed
  exact .tail' (inherits_iff.2 ⟨k, climbed⟩) base

/-! ## Distances -/

theorem Inherits.exists_atDistance (inherits : m.Inherits t a) : ∃ k, m.AtDistance t k a := by
  obtain ⟨k, climbed⟩ := inherits_iff.1 inherits
  obtain ⟨j, _, climbed, first⟩ := exists_least (p := fun j => m.climb j t = some a) climbed
  exact ⟨j, climbed, first⟩

/-- The pigeonhole: a first visit comes before as many steps as there are types. -/
theorem AtDistance.lt (listed : t ∈ m.types) (distance : m.AtDistance t k a) :
    k < m.types.length := by
  refine climb_lt (fun b => b = a) listed distance.1 rfl ?_
  rintro j before b climbed rfl
  exact distance.2 j before climbed

/-! ## The walk -/

theorem getElem?_ancestors (m : Module) (t : TypeDef) (k : Nat) :
    (m.ancestors t)[k]? = if k < m.types.length then m.climb k t else none :=
  getElem?_baseChain m _ k t

theorem climb_of_getElem?_ancestors (here : (m.ancestors t)[k]? = some a) :
    m.climb k t = some a := by
  rw [getElem?_ancestors] at here
  split at here
  · exact here
  · cases here

theorem length_ancestors_le (m : Module) (t : TypeDef) :
    (m.ancestors t).length ≤ m.types.length := by
  refine List.getElem?_eq_none_iff.1 ?_
  rw [getElem?_ancestors, if_neg (Nat.lt_irrefl _)]

theorem mem_take_ancestors :
    a ∈ (m.ancestors t).take k ↔ ∃ j < k, (m.ancestors t)[j]? = some a := by
  rw [List.mem_iff_getElem?]
  refine exists_congr fun j => ?_
  by_cases before : j < k
  · rw [List.getElem?_take_of_lt before, and_iff_right before]
  · rw [List.getElem?_take_eq_none (Nat.le_of_not_lt before)]
    exact ⟨nofun, fun inside => absurd inside.1 before⟩

/-- A type stands in the walk for the first time at its distance, and at no other place. -/
theorem atDistance_iff (listed : t ∈ m.types) : m.AtDistance t k a ↔
    (m.ancestors t)[k]? = some a ∧ a ∉ (m.ancestors t).take k := by
  rw [mem_take_ancestors]
  constructor
  · intro distance
    refine ⟨?_, fun ⟨j, before, here⟩ => distance.2 j before (climb_of_getElem?_ancestors here)⟩
    rw [getElem?_ancestors, if_pos (distance.lt listed), distance.1]
  · rintro ⟨here, first⟩
    have inside : k < m.types.length := by
      have := (List.getElem?_eq_some_iff.1 here).1
      have := length_ancestors_le m t
      omega
    refine ⟨climb_of_getElem?_ancestors here, fun j before climbed => first ⟨j, before, ?_⟩⟩
    rw [getElem?_ancestors, if_pos (by omega), climbed]

/-- The walk is complete, and it leaves the chain nowhere. -/
theorem mem_ancestors (listed : t ∈ m.types) : a ∈ m.ancestors t ↔ m.Inherits t a := by
  constructor
  · intro inside
    obtain ⟨k, here⟩ := List.mem_iff_getElem?.1 inside
    exact inherits_iff.2 ⟨k, climb_of_getElem?_ancestors here⟩
  · intro inherits
    obtain ⟨k, distance⟩ := inherits.exists_atDistance
    exact List.mem_of_getElem? ((atDistance_iff listed).1 distance).1

theorem nodup_ancestors (acyclic : m.AcyclicAbove t) : (m.ancestors t).Nodup := by
  refine List.nodup_iff_getElem?_ne_getElem?.2 fun i j before inside same => ?_
  obtain ⟨a, here⟩ : ∃ a, (m.ancestors t)[j]? = some a := ⟨_, List.getElem?_eq_getElem inside⟩
  have climbed := climb_of_getElem?_ancestors here
  have climbed' := climb_of_getElem?_ancestors (same.trans here)
  obtain ⟨k, rfl⟩ := Nat.exists_eq_add_of_lt before
  rw [Nat.add_assoc, climb_add, climbed', Option.bind_some] at climbed
  exact acyclic _ (inherits_iff.2 ⟨i, climbed'⟩) (transGen_of_climb climbed)

/-! ## What the walk is for -/

theorem isDisposable_iff (listed : t ∈ m.types) : m.isDisposable d t = true ↔
    ∃ a, m.Inherits t a ∧ ∃ i ∈ a.interfaces, (i == d.contract) = true := by
  simp only [isDisposable, implementsContract, List.any_eq_true, mem_ancestors listed]

/-- The first find along the walk is that of the nearest type which has any. -/
theorem findSome?_ancestors_eq_some {α : Type} {f : TypeDef → Option α} {x : α}
    (listed : t ∈ m.types) : (m.ancestors t).findSome? f = some x ↔
      ∃ k a, m.AtDistance t k a ∧ f a = some x ∧
        ∀ j < k, ∀ b, m.AtDistance t j b → f b = none := by
  constructor
  · intro found
    obtain ⟨before, a, after, split, here, nothing⟩ := List.findSome?_eq_some_iff.1 found
    have place : (m.ancestors t)[before.length]? = some a := by
      rw [split]
      simp
    have front : (m.ancestors t).take before.length = before := by
      rw [split, List.take_left]
    refine ⟨before.length, a, (atDistance_iff listed).2 ⟨place, fun earlier => ?_⟩, here,
      fun j inside b distance => ?_⟩
    · rw [nothing a (front ▸ earlier)] at here
      cases here
    · refine nothing b (front ▸ mem_take_ancestors.2 ⟨j, inside, ?_⟩)
      exact ((atDistance_iff listed).1 distance).1
  · rintro ⟨k, a, distance, here, nothing⟩
    have place := ((atDistance_iff listed).1 distance).1
    obtain ⟨inside, same⟩ := List.getElem?_eq_some_iff.1 place
    refine List.findSome?_eq_some_iff.2
      ⟨(m.ancestors t).take k, a, (m.ancestors t).drop (k + 1), ?_, here, fun b earlier => ?_⟩
    · rw [← same, List.getElem_cons_drop, List.take_append_drop]
    · -- A type that comes earlier in the walk is no farther away than its place.
      obtain ⟨j, before, there⟩ := mem_take_ancestors.1 earlier
      obtain ⟨i, early, climbed, first⟩ := exists_least (p := fun i => m.climb i t = some b)
        (climb_of_getElem?_ancestors there)
      exact nothing i (by omega) b ⟨climbed, first⟩

theorem requireTeardown_eq_ok {found : Option (MethodKey × MethodDef)} {key : MethodKey} :
    requireTeardown t found = .ok key ↔ ∃ own, found = some (key, own) := by
  cases found with
  | none => simp [requireTeardown]
  | some keyed =>
    obtain ⟨key', own⟩ := keyed
    simp [requireTeardown]

theorem requireTeardown_eq_error {found : Option (MethodKey × MethodDef)} {e : TargetError} :
    requireTeardown t found = .error e ↔ found = none ∧ e = .notDisposable t.definitionName := by
  cases found with
  | none => simp [requireTeardown, eq_comm]
  | some keyed => simp [requireTeardown]

/-- The teardown of a type is that of the nearest type up the chain which declares one. -/
theorem resolveTeardown_eq_ok {key : MethodKey} (listed : t ∈ m.types) :
    m.resolveTeardown d t = .ok key ↔
      ∃ k a own, m.AtDistance t k a ∧ a.ownTeardown? d = some (key, own) ∧
        ∀ j < k, ∀ b, m.AtDistance t j b → b.ownTeardown? d = none := by
  rw [resolveTeardown, requireTeardown_eq_ok, teardown?]
  simp only [findSome?_ancestors_eq_some listed]
  constructor
  · rintro ⟨own, k, a, found⟩
    exact ⟨k, a, own, found⟩
  · rintro ⟨k, a, own, found⟩
    exact ⟨own, k, a, found⟩

theorem resolveTeardown_eq_error {e : TargetError} (listed : t ∈ m.types) :
    m.resolveTeardown d t = .error e ↔
      (∀ a, m.Inherits t a → a.ownTeardown? d = none) ∧ e = .notDisposable t.definitionName := by
  rw [resolveTeardown, requireTeardown_eq_error, teardown?, List.findSome?_eq_none_iff]
  simp only [mem_ancestors listed]

/-- The walk up from any type of a module lists what its base types lead to, by distance, and tells
by that whether the type is disposable and which teardown it has. -/
theorem ancestors_complete (m : Module) (d : Disposal) {t : TypeDef} (listed : t ∈ m.types) :
    (m.ancestors t).length ≤ m.types.length ∧
      (∀ a, a ∈ m.ancestors t ↔ m.Inherits t a) ∧
      (∀ k a, m.AtDistance t k a ↔
        (m.ancestors t)[k]? = some a ∧ a ∉ (m.ancestors t).take k) ∧
      (m.AcyclicAbove t → (m.ancestors t).Nodup) ∧
      (m.isDisposable d t = true ↔
        ∃ a, m.Inherits t a ∧ ∃ i ∈ a.interfaces, (i == d.contract) = true) ∧
      (∀ key, m.resolveTeardown d t = .ok key ↔
        ∃ k a own, m.AtDistance t k a ∧ a.ownTeardown? d = some (key, own) ∧
          ∀ j < k, ∀ b, m.AtDistance t j b → b.ownTeardown? d = none) ∧
      ∀ e, m.resolveTeardown d t = .error e ↔
        (∀ a, m.Inherits t a → a.ownTeardown? d = none) ∧ e = .notDisposable t.definitionName :=
  ⟨length_ancestors_le m t, fun _ => mem_ancestors listed, fun _ _ => atDistance_iff listed,
    nodup_ancestors, isDisposable_iff listed, fun _ => resolveTeardown_eq_ok listed,
    fun _ => resolveTeardown_eq_error listed⟩

end Module

namespace Sample

def tail : TypeDef := { ns := "App", name := "Tail", base := some (.plain "App" "Ring") }

/-- A tail that leads into a cycle of two types, the farther of which declares the teardown. -/
def cyclic : Module where
  name := "App"
  types := [tail, { ns := "App", name := "Ring", base := some (.plain "App" "Knot") },
    { ns := "App", name := "Knot", base := some (.plain "App" "Ring"),
      interfaces := [.plain "System" "IDisposable"], methods := [{ name := "Dispose" }] }]
  names_nodup := by decide +kernel

end Sample

open Sample in
/-- The walk goes through all three types, and the cycle hides nothing. -/
theorem Module.ancestors_complete_cyclic :
    tail ∈ cyclic.types ∧
      (cyclic.ancestors tail).map TypeDef.definitionName = ["App.Tail", "App.Ring", "App.Knot"] ∧
      (∃ a, cyclic.Inherits tail a ∧
        ∃ i ∈ a.interfaces, (i == TypeRef.plain "System" "IDisposable") = true) ∧
      ∃ k a own, cyclic.AtDistance tail k a ∧
        a.ownTeardown? ⟨.plain "System" "IDisposable", "Dispose"⟩ =
          some (⟨"App.Knot", 0⟩, own) ∧
        ∀ j < k, ∀ b, cyclic.AtDistance tail j b →
          b.ownTeardown? ⟨.plain "System" "IDisposable", "Dispose"⟩ = none := by
  have listed : tail ∈ cyclic.types := List.mem_cons_self
  obtain ⟨_, _, _, _, disposable, nearest, _⟩ :=
    ancestors_complete cyclic ⟨.plain "System" "IDisposable", "Dispose"⟩ listed
  exact ⟨listed, by decide +kernel, disposable.1 (by decide +kernel),
    (nearest ⟨"App.Knot", 0⟩).1 (by decide +kernel)⟩

end ReleaseWeaver
