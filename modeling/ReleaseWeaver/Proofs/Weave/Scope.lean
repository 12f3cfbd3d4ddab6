import Mathlib.Algebra.GroupWithZero.Nat
import ReleaseWeaver.Proofs.Weave.Teardowns

/-
  The scope of a target: the methods that the passes may register in, and the handle calls in
  them. The prologues change no handle call, and flags have no part in them.
-/

namespace ReleaseWeaver

namespace Body

variable {b : Body} {f : FieldRef} {run : List Instr}

/-- A run without handle calls changes none of them. -/
theorem handleCalls_insertAt {contract : TypeRef} {fragment : String}
    (silent : ∀ i ∈ run, i.isHandleCall contract fragment = false) (p : Nat) :
    (b.insertAt p run).handleCalls contract fragment = b.handleCalls contract fragment := by
  have new : (b.fresh run).filter (fun l => l.2.isHandleCall contract fragment) = [] := by
    refine List.filter_eq_nil_iff.2 fun l listed => ?_
    rw [silent l.2 (snd_mem_of_mem_fresh listed)]
    exact Bool.false_ne_true
  unfold handleCalls
  rw [lines_insertAt, List.filter_append, List.filter_append, new, List.nil_append,
    ← List.filter_append, List.take_append_drop]

theorem handleCalls_prologue (contract : TypeRef) (fragment : String) (constructor : MethodRef) :
    (b.insertAt 0 (prologue f constructor)).handleCalls contract fragment =
      b.handleCalls contract fragment :=
  handleCalls_insertAt (forall_mem_three rfl rfl rfl) 0

theorem nodup_handleCalls (b : Body) (contract : TypeRef) (fragment : String) :
    (b.handleCalls contract fragment).Nodup :=
  b.nodup_handles.sublist (List.filter_sublist.map _)

end Body

namespace MethodDef

/-- The handle calls of a method. -/
def handleCalls (c : WeaveContext) (d : MethodDef) : List Handle :=
  (d.body.map fun b =>
    b.handleCalls c.collaborators.contract c.config.handleCallFragment).getD []

theorem handleCalls_withPrologue (c : WeaveContext) (field : FieldRef) (constructor : MethodRef)
    (d : MethodDef) : (d.withPrologue (prologue field constructor)).handleCalls c =
      d.handleCalls c := by
  unfold withPrologue
  split
  · cases body : d.body with
    | none => simp only [handleCalls, body, Option.map_none]
    | some b =>
      simp only [handleCalls, body, Option.map_some, Option.getD_some]
      exact Body.handleCalls_prologue _ _ constructor
  · rfl

end MethodDef

/-- The handle calls in the methods of a target that are in scope. -/
def Target.sites (target : Target) (c : WeaveContext) (m : Module) : List (MethodKey × Handle) :=
  (((m.findType? target.typeName).map (target.methods c.markers)).getD []).flatMap fun (key, d) =>
    ((d.body.map fun b =>
        b.handleCalls c.collaborators.contract c.config.handleCallFragment).getD []).map
      fun h => (key, h)

namespace Target

variable {target : Target} {c : WeaveContext} {m m' : Module} {key : MethodKey} {h : Handle}

theorem mem_keys_methods {table : MarkerTable} {t : TypeDef}
    (known : m.findType? target.typeName = some t) :
    key ∈ (target.methods table t).map Prod.fst ↔ key.owner = target.typeName ∧
      (target.wide || table.contains (.method key) target.family) = true ∧
        ∃ d, m.findMethod? key = some d ∧ d.isInstanceWithBody = true := by
  have named : t.definitionName = target.typeName := (Module.mem_of_findType? known).2
  have found (d : MethodDef) (owned : key.owner = target.typeName) :
      m.findMethod? key = some d ↔ t.methods[key.index]? = some d := by
    rw [Module.findMethod?, owned, known, Option.bind_some]
  simp only [methods, List.mem_map, List.mem_filter, Bool.and_eq_true, Prod.exists,
    exists_and_right, exists_eq_right, TypeDef.mem_keyedMethods, named]
  constructor
  · rintro ⟨d, ⟨owned, there⟩, instanced, chosen⟩
    exact ⟨owned, chosen, d, (found d owned).2 there, instanced⟩
  · rintro ⟨owned, chosen, d, there, instanced⟩
    exact ⟨d, ⟨owned, (found d owned).1 there⟩, instanced, chosen⟩

theorem mem_sites : (key, h) ∈ target.sites c m ↔ key.owner = target.typeName ∧
    (target.wide || c.markers.contains (.method key) target.family) = true ∧
      ∃ d b, m.findMethod? key = some d ∧ d.isInstanceWithBody = true ∧ d.body = some b ∧
        h ∈ b.handleCalls c.collaborators.contract c.config.handleCallFragment := by
  unfold sites
  cases known : m.findType? target.typeName with
  | none =>
    refine ⟨fun impossible => (by cases impossible), ?_⟩
    rintro ⟨owned, _, d, b, found, _⟩
    rw [Module.findMethod?, owned, known] at found
    cases found
  | some t =>
    have named : t.definitionName = target.typeName := (Module.mem_of_findType? known).2
    have found (d : MethodDef) (owned : key.owner = target.typeName) :
        m.findMethod? key = some d ↔ t.methods[key.index]? = some d := by
      rw [Module.findMethod?, owned, known, Option.bind_some]
    simp only [Option.map_some, Option.getD_some, List.mem_flatMap, List.mem_map, Prod.mk.injEq,
      exists_eq_right_right, methods, List.mem_filter, Bool.and_eq_true, Prod.exists,
      TypeDef.mem_keyedMethods, named]
    constructor
    · rintro ⟨_, d, ⟨⟨owned, there⟩, instanced, chosen⟩, called, rfl⟩
      cases body : d.body with
      | none =>
        rw [body] at called
        cases called
      | some b =>
        rw [body] at called
        exact ⟨owned, chosen, d, b, (found d owned).2 there, instanced, body, called⟩
    · rintro ⟨owned, chosen, d, b, there, instanced, body, called⟩
      refine ⟨key, d, ⟨⟨owned, (found d owned).1 there⟩, instanced, chosen⟩, ?_, rfl⟩
      rw [body]
      exact called

/-- Flags of methods have no part in the handle calls in scope. -/
theorem mem_sites_of_core (same : ∀ key, key.owner = target.typeName →
      (m'.findMethod? key).map MethodDef.core = (m.findMethod? key).map MethodDef.core) :
    (key, h) ∈ target.sites c m' ↔ (key, h) ∈ target.sites c m := by
  have half {m m' : Module} (same : ∀ key, key.owner = target.typeName →
      (m'.findMethod? key).map MethodDef.core = (m.findMethod? key).map MethodDef.core)
      (site : (key, h) ∈ target.sites c m) : (key, h) ∈ target.sites c m' := by
    obtain ⟨owned, chosen, d, b, found, instanced, body, called⟩ := mem_sites.1 site
    have same' := same key owned
    rw [found] at same'
    obtain ⟨d', found', core⟩ := Option.map_eq_some_iff.1 same'
    have body' : d'.core.body = d.core.body := congrArg MethodDef.body core
    have static : d'.core.isInstanceWithBody = d.core.isInstanceWithBody :=
      congrArg MethodDef.isInstanceWithBody core
    exact mem_sites.2 ⟨owned, chosen, d', b, found', static.trans instanced, body'.trans body, called⟩
  exact ⟨half fun key owned => (same key owned).symm, half same⟩

end Target

namespace Module

variable {m : Module} {c : WeaveContext} {target : Target} {t : TypeDef} {key : MethodKey}

theorem nodup_keys_methods (table : MarkerTable) (target : Target) (t : TypeDef) :
    ((target.methods table t).map Prod.fst).Nodup :=
  t.nodup_map_fst_keyedMethods.sublist (List.filter_sublist.map _)

theorem findMethod?_instrumented (owned : key.owner = target.typeName) :
    (m.instrumented c target t).findMethod? key = (m.findMethod? key).map fun d =>
      if key ∈ (target.methods c.markers t).map Prod.fst then
        (d.withPrologue (prologue (t.fieldRef (c.trackingField t))
          c.collaborators.containerConstructor)).registered c (t.fieldRef (c.trackingField t))
      else d.withPrologue (prologue (t.fieldRef (c.trackingField t))
        c.collaborators.containerConstructor) := by
  rw [instrumented, findMethod?_registerAll (nodup_keys_methods c.markers target t),
    findMethod?_instrumentConstructors, findMethod?_withField, Option.map_map]
  congr 1
  funext d
  rw [Function.comp_apply, if_pos owned]

theorem findMethod?_instrumented_other (known : m.findType? target.typeName = some t)
    (other : key.owner ≠ target.typeName) :
    (m.instrumented c target t).findMethod? key = m.findMethod? key := by
  have outside : key ∉ (target.methods c.markers t).map Prod.fst :=
    fun listed => other ((Target.mem_keys_methods known).1 listed).1
  rw [instrumented, findMethod?_registerAll (nodup_keys_methods c.markers target t),
    findMethod?_instrumentConstructors, findMethod?_withField]
  simp only [if_neg other, if_neg outside, Option.map_id']

/-! ## Counting the handle calls -/

/-- The number of handle calls in a method. -/
def callCount (c : WeaveContext) (m : Module) (key : MethodKey) : Nat :=
  ((m.findMethod? key).map fun d => (d.handleCalls c).length).getD 0

theorem callCount_instrumentConstructors (m : Module) (typeName : String) (field : FieldRef)
    (constructor : MethodRef) (key : MethodKey) :
    (m.instrumentConstructors typeName field constructor).1.callCount c key =
      m.callCount c key := by
  rw [callCount, callCount, findMethod?_instrumentConstructors, Option.map_map]
  congr 2
  funext d
  rw [Function.comp_apply]
  split
  · rw [MethodDef.handleCalls_withPrologue]
  · rfl

theorem callCount_withField (m : Module) (owner : String) (d : FieldDef) (key : MethodKey) :
    (m.withField owner d).callCount c key = m.callCount c key := by
  rw [callCount, findMethod?_withField]
  rfl

/-- The prologues are counted as before the field for them was added. -/
theorem instrumentConstructors_withField_snd {typeName : String}
    (known : m.findType? typeName = some t) (d : FieldDef) (field : FieldRef)
    (constructor : MethodRef) :
    ((m.withField t.definitionName d).instrumentConstructors typeName field constructor).2 =
      t.methods.countP MethodDef.takesPrologue := by
  have changed : (m.withField t.definitionName d).findType? typeName =
      (m.findType? typeName).map
        (changeNamed t.definitionName fun u => { u with fields := u.fields ++ [d] }) :=
    findType?_modifyType m t.definitionName _ typeName
  show (((m.withField t.definitionName d).findType? typeName).map _).getD 0 = _
  rw [changed, known, Option.map_some, changeNamed_of_eq rfl]
  rfl

theorem callCount_registerIn {key key' : MethodKey} (other : key' ≠ key) (field : FieldRef)
    (m : Module) : (m.registerIn c field key).callCount c key' = m.callCount c key' := by
  rw [callCount, callCount, registerIn, findMethod?_modifyMethod]
  simp only [if_neg other, Option.map_id']

theorem length_sites (known : m.findType? target.typeName = some t) :
    (target.sites c m).length =
      (((target.methods c.markers t).map Prod.fst).map (m.callCount c)).sum := by
  have named : t.definitionName = target.typeName := (mem_of_findType? known).2
  rw [Target.sites, known, Option.map_some, Option.getD_some, List.length_flatMap, List.map_map]
  congr 1
  refine List.map_congr_left fun (key, d) chosen => ?_
  obtain ⟨owner, there⟩ := TypeDef.mem_keyedMethods.1 (List.mem_filter.1 chosen).1
  have found : m.findMethod? key = some d :=
    findMethod?_eq_some.2 ⟨t, by rw [owner, named]; exact known, there⟩
  rw [Function.comp_apply, callCount, found, List.length_map]
  rfl

end Module

end ReleaseWeaver
