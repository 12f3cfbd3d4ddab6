import ReleaseWeaver.Proofs.Metadata.Chains

/-
  Modules with the same types in another order. A type is found by its name, which no other type
  has, so the order counts for nothing that is looked up: not for the members of a type, not for
  what a reference leads to, and not for what lies above a type.
-/

namespace ReleaseWeaver

namespace Module

variable {m m' n n' : Module} {t : TypeDef}

/-- The references are the same, and so are the types but for their order. -/
structure Reordered (m m' : Module) : Prop where
  references : m'.references = m.references
  types : m'.types.Perm m.types

namespace Reordered

/-- Modules in which the same types are found are in the relation. -/
theorem of_findType? (references : m'.references = m.references)
    (found : m'.findType? = m.findType?) : m.Reordered m' := by
  have once (m : Module) : m.types.Nodup := m.names_nodup.of_map _
  have half {m m' : Module} (found : m'.findType? = m.findType?) : m.types ⊆ m'.types := by
    intro t listed
    have known := findType?_of_mem listed
    rw [← found] at known
    exact (mem_of_findType? known).1
  exact ⟨references, (List.subperm_of_subset (once m') (half found.symm)).antisymm
    (List.subperm_of_subset (once m) (half found))⟩

variable (same : m.Reordered m')

include same

theorem symm : m'.Reordered m := ⟨same.references.symm, same.types.symm⟩

theorem findType? : m'.findType? = m.findType? := by
  have half {m m' : Module} (types : m'.types.Perm m.types) {name : String} {t : TypeDef}
      (known : m.findType? name = some t) : m'.findType? name = some t := by
    obtain ⟨listed, rfl⟩ := mem_of_findType? known
    exact findType?_of_mem (types.mem_iff.2 listed)
  funext name
  exact Option.ext fun t => ⟨half same.types.symm, half same.types⟩

/-! ## Members -/

theorem findMethod? : m'.findMethod? = m.findMethod? := by
  funext key
  rw [Module.findMethod?, Module.findMethod?, same.findType?]

theorem methodRef? : m'.methodRef? = m.methodRef? := by
  funext key
  rw [Module.methodRef?, Module.methodRef?, same.findType?]

theorem nextMethodKey : m'.nextMethodKey = m.nextMethodKey := by
  funext owner
  rw [Module.nextMethodKey, Module.nextMethodKey, same.findType?]

theorem declaresField : m'.declaresField = m.declaresField := by
  funext owner name
  rw [Module.declaresField, Module.declaresField, same.findType?]

theorem fieldsOf : m'.fieldsOf = m.fieldsOf := by
  funext name
  rw [Module.fieldsOf, Module.fieldsOf, same.findType?]

/-! ## Chains -/

theorem resolve? : m'.resolve? = m.resolve? := by
  funext ref
  rw [Module.resolve?, Module.resolve?, same.findType?]

theorem baseOf? : m'.baseOf? = m.baseOf? := by
  funext t
  rw [Module.baseOf?, Module.baseOf?, same.resolve?]

theorem ancestors : m'.ancestors = m.ancestors := by
  have chain (count : Nat) (t : TypeDef) : m'.baseChain count t = m.baseChain count t := by
    induction count generalizing t with
    | zero => rfl
    | succ count ih =>
      rw [baseChain, baseChain, same.baseOf?]
      simp only [ih]
  funext t
  rw [Module.ancestors, Module.ancestors, same.types.length_eq, chain]

theorem climb : m'.climb = m.climb := by
  funext count
  induction count with
  | zero => rfl
  | succ count ih =>
    funext t
    rw [Module.climb, Module.climb, same.baseOf?, ih]

theorem above : m'.above = m.above := by
  funext count name
  rw [Module.above, Module.above, same.findType?, same.climb]

theorem firstUp {α : Type} (f : String → Option α) (name : String) (x : α) :
    m'.FirstUp f name x ↔ m.FirstUp f name x := by
  rw [FirstUp, FirstUp, same.above]

theorem refAbove : m'.refAbove = m.refAbove := by
  funext name ancestor
  simp only [Module.refAbove, ancestorRef, same.findType?, same.ancestors]

theorem isDisposable : m'.isDisposable = m.isDisposable := by
  funext d t
  rw [Module.isDisposable, Module.isDisposable, same.ancestors]

theorem acyclic (acyclic : m.Acyclic) : m'.Acyclic := by
  intro t listed k
  rw [same.climb]
  exact acyclic t (same.types.mem_iff.1 listed) k

/-! ## Changes -/

/-- Changes of fields and methods that agree keep modules in the relation. -/
theorem changed (shapes : n.shapes = m.shapes) (shapes' : n'.shapes = m'.shapes)
    (references : n'.references = n.references) (fields : ∀ name, n'.fieldsOf name = n.fieldsOf name)
    (methods : ∀ key, n'.findMethod? key = n.findMethod? key) : n.Reordered n' := by
  refine of_findType? references (funext fun name => ?_)
  have shaped := findType?_shape shapes name
  have shaped' := findType?_shape shapes' name
  rw [same.findType?, ← shaped] at shaped'
  cases known : n.findType? name with
  | none => rwa [known, Option.map_none, Option.map_eq_none_iff] at shaped'
  | some t =>
    rw [known] at shaped'
    obtain ⟨t', known', shape⟩ := Option.map_eq_some_iff.1 shaped'
    have declared := fields name
    rw [Module.fieldsOf, Module.fieldsOf, known, known'] at declared
    have each : t'.methods = t.methods := List.ext_getElem? fun i => by
      have found := methods ⟨name, i⟩
      rw [Module.findMethod?, Module.findMethod?, known, known'] at found
      exact found
    rw [known', TypeDef.eq_of_shape shape (Option.some.inj declared) each]

end Reordered

end Module

end ReleaseWeaver
