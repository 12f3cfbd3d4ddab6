import ReleaseWeaver.Metadata.Hierarchy
import ReleaseWeaver.Proofs.Code.StackTyping

/-
  Look-ups in a module: a type is found by its name and by no other, a method by its key. The
  module passes the check when each body of a local type is well stacked.
-/

namespace ReleaseWeaver

theorem TypeDef.mem_keyedMethods {t : TypeDef} {key : MethodKey} {d : MethodDef} :
    (key, d) ∈ t.keyedMethods ↔ key.owner = t.definitionName ∧ t.methods[key.index]? = some d := by
  simp only [keyedMethods, List.mem_map, Prod.mk.injEq, Prod.exists]
  constructor
  · rintro ⟨d', index, listed, rfl, rfl⟩
    exact ⟨rfl, List.mk_mem_zipIdx_iff_getElem?.1 listed⟩
  · rintro ⟨owner, found⟩
    exact ⟨d, key.index, List.mk_mem_zipIdx_iff_getElem?.2 found, by rw [← owner], rfl⟩

theorem TypeDef.getElem?_keyedMethods (t : TypeDef) (i : Nat) :
    t.keyedMethods[i]? = t.methods[i]?.map fun d => (⟨t.definitionName, i⟩, d) := by
  rw [keyedMethods, List.getElem?_map, List.getElem?_zipIdx, Option.map_map, Nat.zero_add]
  rfl

theorem TypeDef.map_snd_keyedMethods (t : TypeDef) : t.keyedMethods.map Prod.snd = t.methods := by
  rw [keyedMethods, List.map_map]
  exact List.zipIdx_map_fst 0 t.methods

theorem TypeDef.nodup_map_fst_keyedMethods (t : TypeDef) :
    (t.keyedMethods.map Prod.fst).Nodup := by
  have keys : t.keyedMethods.map Prod.fst =
      (List.range t.methods.length).map fun i => ⟨t.definitionName, i⟩ := by
    rw [keyedMethods, List.map_map, List.range_eq_range', ← List.zipIdx_map_snd, List.map_map]
    rfl
  rw [keys]
  exact List.nodup_range.map fun i j same => congrArg MethodKey.index same

namespace Module

theorem mem_of_findType? {m : Module} {name : String} {t : TypeDef}
    (h : m.findType? name = some t) : t ∈ m.types ∧ t.definitionName = name :=
  ⟨List.mem_of_find?_eq_some h, by simpa using List.find?_some h⟩

theorem findType?_of_mem {m : Module} {t : TypeDef} (h : t ∈ m.types) :
    m.findType? t.definitionName = some t := by
  cases found : m.findType? t.definitionName with
  | none =>
    have := List.find?_eq_none.1 found t h
    simp at this
  | some u =>
    obtain ⟨listed, same⟩ := mem_of_findType? found
    rw [List.inj_on_of_nodup_map m.names_nodup listed h same]

theorem findMethod?_eq_some {m : Module} {key : MethodKey} {d : MethodDef} :
    m.findMethod? key = some d ↔
      ∃ t, m.findType? key.owner = some t ∧ t.methods[key.index]? = some d := by
  simp [findMethod?, Option.bind_eq_some_iff]

theorem mem_localBodies {m : Module} {key : MethodKey} {d : MethodDef} {b : Body} :
    (key, d, b) ∈ m.localBodies ↔
      ∃ t ∈ m.types, t.isLocal = true ∧ (key, d) ∈ t.keyedMethods ∧ d.body = some b := by
  simp only [localBodies, localTypes, List.mem_flatMap, List.mem_filter, List.mem_filterMap,
    Option.map_eq_some_iff, Prod.mk.injEq, Prod.exists]
  constructor
  · rintro ⟨t, ⟨listed, isLocal⟩, key', d', keyed, b', body, rfl, rfl, rfl⟩
    exact ⟨t, listed, isLocal, keyed, body⟩
  · rintro ⟨t, listed, isLocal, keyed, body⟩
    exact ⟨t, ⟨listed, isLocal⟩, key, d, keyed, b, body, rfl, rfl, rfl⟩

end Module

theorem forM_ok_iff {α ε : Type} {f : α → Except ε Unit} {xs : List α} :
    xs.forM f = .ok () ↔ ∀ x ∈ xs, f x = .ok () := by
  induction xs with
  | nil => simp [pure, Except.pure]
  | cons x xs ih =>
    rw [List.forall_mem_cons, show (x :: xs).forM f = (f x >>= fun _ => xs.forM f) from rfl]
    cases head : f x with
    | error e => simp [bind, Except.bind]
    | ok u => simpa [bind, Except.bind] using ih

/-- A method without a body, or with one that passes the check. -/
def MethodDef.WellStacked (d : MethodDef) : Prop :=
  ∀ b, d.body = some b → b.WellStacked d.returns.isSome

theorem Module.verify_ok_iff {m : Module} : m.verify = .ok () ↔
    ∀ t ∈ m.types, t.isLocal = true → ∀ d ∈ t.methods, d.WellStacked := by
  have each (b : Body) (r : Bool) :
      (b.verifyStack r).map (fun _ => ()) = .ok () ↔ b.WellStacked r := by
    rw [← Body.verifyStack_isOk_iff]
    cases b.verifyStack r <;> simp [Except.map]
  rw [verify, forM_ok_iff]
  constructor
  · intro all t listed isLocal d declared b body
    obtain ⟨index, found⟩ := List.mem_iff_getElem?.1 declared
    have keyed : (⟨t.definitionName, index⟩, d) ∈ t.keyedMethods :=
      TypeDef.mem_keyedMethods.2 ⟨rfl, found⟩
    exact (each b _).1 (all _ (mem_localBodies.2 ⟨t, listed, isLocal, keyed, body⟩))
  · rintro all ⟨key, d, b⟩ listed
    obtain ⟨t, known, isLocal, keyed, body⟩ := mem_localBodies.1 listed
    have declared := List.mem_of_getElem? (TypeDef.mem_keyedMethods.1 keyed).2
    exact (each b _).2 (all t known isLocal d declared b body)

end ReleaseWeaver
