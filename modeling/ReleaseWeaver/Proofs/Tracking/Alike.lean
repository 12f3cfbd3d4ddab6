import ReleaseWeaver.Proofs.Machine.Prolonging
import ReleaseWeaver.Proofs.Tracking.Sparing

/-
  Heaps that differ at most in the entries of one container. No instruction reads entries, so on
  such heaps an activation does the same in two bodies that have its instruction, if the two agree
  on where it leads.
-/

namespace ReleaseWeaver.Machine

open Reactive (setNative)

variable {n o k : Nat} {h h' h'' : Heap} {content : Value} {name : String}

/-! ## Heaps -/

/-- The object without what it holds as a container. -/
def Object.emptied (object : Object) : Object :=
  { object with
    native := match object.native with
      | .container _ released => .container [] released
      | native => native }

namespace Object

@[simp] theorem field_emptied (object : Object) (name : String) :
    object.emptied.field name = object.field name := rfl

@[simp] theorem emptied_setField (object : Object) (name : String) (content : Value) :
    (object.setField name content).emptied = object.emptied.setField name content := rfl

theorem native_emptied {object object' : Object} (same : object.emptied = object'.emptied)
    {entries : List Value} {released : Bool} (native : object.native = .container entries released) :
    ∃ entries', object'.native = .container entries' released := by
  have natives : object.emptied.native = object'.emptied.native := congrArg Object.native same
  simp only [emptied, native] at natives
  split at natives
  · next entries' released' native' =>
    cases natives
    exact ⟨entries', native'⟩
  · next other => exact absurd natives.symm (other [] released)

end Object

namespace Heap

theorem ext_get? (same : ∀ k, h.get? k = h'.get? k) : h = h' := by
  obtain ⟨objects⟩ := h
  obtain ⟨objects'⟩ := h'
  exact congrArg Heap.mk (Array.ext_getElem? fun k => same (k + 1))

/-- Changes that commute for objects commute for heaps. -/
theorem modify_comm {f g : Object → Object} (comm : ∀ object, f (g object) = g (f object))
    (h : Heap) (n k : Nat) : (h.modify f n).modify g k = (h.modify g k).modify f n := by
  refine ext_get? fun j => ?_
  simp only [get?_modify]
  cases h.get? j with
  | none => split <;> split <;> rfl
  | some object =>
    split <;> split <;> simp only [Option.map_some, comm]

/-- The heaps differ at most in the entries of the container. -/
def Alike (n : Nat) (h h' : Heap) : Prop := h.modify Object.emptied n = h'.modify Object.emptied n

namespace Alike

theorem refl (n : Nat) (h : Heap) : h.Alike n h := rfl

theorem symm (alike : h.Alike n h') : h'.Alike n h := Eq.symm alike

theorem trans (alike : h.Alike n h') (alike' : h'.Alike n h'') : h.Alike n h'' :=
  Eq.trans alike alike'

theorem emptied (alike : h.Alike n h') (k : Nat) :
    (h.get? k).map Object.emptied = (h'.get? k).map Object.emptied := by
  have same := congrArg (Option.map Object.emptied ∘ (Heap.get? · k)) alike
  simp only [Function.comp, get?_modify] at same
  split at same
  · have twice : Object.emptied ∘ Object.emptied = Object.emptied := by
      funext ⟨className, fields, native⟩
      cases native <;> rfl
    rwa [Option.map_map, Option.map_map, twice] at same
  · exact same

theorem exists_get? (alike : h.Alike n h') {object : Object} (there : h.get? k = some object) :
    ∃ object', h'.get? k = some object' ∧ object.emptied = object'.emptied := by
  have same := alike.emptied k
  rw [there] at same
  obtain ⟨object', there', same'⟩ := Option.map_eq_some_iff.1 same.symm
  exact ⟨object', there', same'.symm⟩

theorem get?_eq_none (alike : h.Alike n h') (missing : h.get? k = none) :
    h'.get? k = none := by
  have same := alike.emptied k
  rw [missing] at same
  exact Option.map_eq_none_iff.1 same.symm

theorem field_eq (alike : h.Alike n h') {object object' : Object} (there : h.get? k = some object)
    (there' : h'.get? k = some object') (name : String) : object'.field name = object.field name := by
  have same := alike.emptied k
  rw [there, there'] at same
  rw [← Object.field_emptied object', ← Option.some.inj same, Object.field_emptied]

theorem has (alike : h.Alike n h') (has : h.Has name o content) : h'.Has name o content := by
  obtain ⟨object, there, same⟩ := has
  obtain ⟨object', there', _⟩ := alike.exists_get? there
  exact ⟨object', there', (alike.field_eq there there' name).trans same⟩

theorem holds (alike : h.Alike n h') {entries : List Value} {released : Bool}
    (holds : h.Holds k entries released) : ∃ entries', h'.Holds k entries' released := by
  obtain ⟨object, there, native⟩ := holds
  obtain ⟨object', there', same⟩ := alike.exists_get? there
  obtain ⟨entries', native'⟩ := Object.native_emptied same native
  exact ⟨entries', object', there', native'⟩

theorem modify (alike : h.Alike n h') {f : Object → Object}
    (comm : ∀ object, (f object).emptied = f object.emptied) (k : Nat) :
    (h.modify f k).Alike n (h'.modify f k) := by
  have same : (h.modify Object.emptied n).modify f k = (h'.modify Object.emptied n).modify f k :=
    congrArg (Heap.modify · f k) alike
  rwa [modify_comm (fun object => comm object), modify_comm (fun object => comm object)] at same

theorem alloc (alike : h.Alike n h') (object : Object) :
    (h.alloc object).2 = (h'.alloc object).2 ∧ (h.alloc object).1.Alike n (h'.alloc object).1 := by
  have size : h.objects.size = h'.objects.size := by
    have sizes := congrArg (fun h : Heap => h.objects.size) alike
    cases n <;> simpa [Heap.modify] using sizes
  refine ⟨by rw [Heap.alloc, Heap.alloc, size], ext_get? fun k => ?_⟩
  have same := congrArg (Heap.get? · k) alike
  simp only [get?_modify, get?_alloc, size] at same ⊢
  by_cases new : k = h'.objects.size + 1
  · rw [if_pos new, if_pos new]
  · rwa [if_neg new, if_neg new]

end Alike

theorem alike_setEntries {entries : List Value} {released : Bool}
    (holds : h.Holds n entries released) (entries' : List Value) :
    h.Alike n (h.modify (setNative (.container entries' released)) n) := by
  obtain ⟨object, there, native⟩ := holds
  refine ext_get? fun k => ?_
  simp only [get?_modify]
  split
  · next here =>
    subst here
    rw [there]
    simp only [Option.map_some, Object.emptied, setNative, native]
  · rfl

end Heap

/-! ## Reading and writing -/

section Objects

variable (alike : h.Alike n h')

include alike

theorem Heap.Alike.object (v : Value) : (∃ e, h.object v = .error e ∧ h'.object v = .error e) ∨
    ∃ k object object', v = .object k ∧ h.object v = .ok (k, object) ∧
      h'.object v = .ok (k, object') ∧ h.get? k = some object ∧ h'.get? k = some object' := by
  cases v with
  | null | int | str => exact .inl ⟨_, rfl, rfl⟩
  | object k =>
    cases there : h.get? k with
    | none =>
      have there' := alike.get?_eq_none there
      exact .inl ⟨.danglingObject, by rw [Heap.object, there], by rw [Heap.object, there']⟩
    | some object =>
      obtain ⟨object', there', _⟩ := alike.exists_get? there
      exact .inr ⟨k, object, object', rfl, Heap.object_eq_ok.2 ⟨rfl, there⟩,
        Heap.object_eq_ok.2 ⟨rfl, there'⟩, there, there'⟩

theorem Heap.Alike.field (v : Value) (name : String) : h'.field v name = h.field v name := by
  obtain ⟨e, failed, failed'⟩ | ⟨k, object, object', -, read, read', there, there'⟩ := alike.object v
  · rw [Heap.field, Heap.field, failed, failed']
  · rw [Heap.field, Heap.field, read, read']
    exact congrArg Except.ok (alike.field_eq there there' name)

theorem Heap.Alike.setField (v : Value) (name : String) (content : Value) :
    (∃ e, h.setField v name content = .error e ∧ h'.setField v name content = .error e) ∨
      ∃ h₁ h₁', h.setField v name content = .ok h₁ ∧ h'.setField v name content = .ok h₁' ∧
        h₁.Alike n h₁' := by
  obtain ⟨e, failed, failed'⟩ | ⟨k, object, object', -, read, read', -, -⟩ := alike.object v
  · exact .inl ⟨e, by rw [Heap.setField, failed]; rfl, by rw [Heap.setField, failed']; rfl⟩
  · exact .inr ⟨_, _, by rw [Heap.setField, read]; rfl, by rw [Heap.setField, read']; rfl,
      alike.modify (fun object => Object.emptied_setField object name content) k⟩

end Objects

/-! ## One instruction in two bodies -/

/-- The activation in another body, at the position that is mapped to. -/
def Frame.moved (w : Body) (pos : Nat → Nat) (f : Frame) : Frame :=
  { f with body := w, position := pos f.position }

/-- An instruction comes to the same in an activation and in the one that it is taken to, but for
the entries of one container. -/
inductive Effect.Twins (n : Nat) (move : Frame → Frame) :
    Except ExecError Effect → Except ExecError Effect → Prop where
  | failed (e : ExecError) : Twins n move (.error e) (.error e)
  | next {h h' : Heap} (f : Frame) : h.Alike n h' →
      Twins n move (.ok (.next f h)) (.ok (.next (move f) h'))
  | construct (f : Frame) (className : String) (args : List Value) :
      Twins n move (.ok (.construct f className args)) (.ok (.construct (move f) className args))
  | invoke (f : Frame) (c : Call) :
      Twins n move (.ok (.invoke f c)) (.ok (.invoke (move f) c))
  | leave (result : Option Value) : Twins n move (.ok (.leave result)) (.ok (.leave result))

namespace Frame

variable {w : Body} {pos : Nat → Nat} {f : Frame} {i : Instr}

theorem moved_continueWith (next : pos (f.position + 1) = pos f.position + 1) (stack : List Value) :
    (f.moved w pos).continueWith stack = (f.continueWith stack).moved w pos := by
  simp only [moved, continueWith, next]

theorem moved_accept (f : Frame) (takes : Bool) (result : Option Value) :
    (f.moved w pos).accept takes result = (f.accept takes result).moved w pos := by
  cases takes <;> rfl

theorem jump_moved {t : Handle} (leads : w.position? t = (f.body.position? t).map pos)
    (alike : h.Alike n h') (stack : List Value) :
    Effect.Twins n (moved w pos) ((f.jump stack t).map fun f' => .next f' h)
      (((f.moved w pos).jump stack t).map fun f' => .next f' h') := by
  rw [jump, jump, show (f.moved w pos).body = w from rfl, leads]
  cases f.body.position? t with
  | none => exact .failed _
  | some q => exact .next { f with stack, position := q } alike

/-- An instruction that both bodies hold comes to the same, if they agree on where it leads. -/
theorem exec_moved (alike : h.Alike n h') (next : pos (f.position + 1) = pos f.position + 1)
    (leads : ∀ t, i.target? = some t → w.position? t = (f.body.position? t).map pos) :
    Effect.Twins n (moved w pos) (f.exec h i) ((f.moved w pos).exec h' i) := by
  have on (stack : List Value) := moved_continueWith (w := w) next stack
  have goes {h h' : Heap} (alike : h.Alike n h') (stack : List Value) :
      Effect.Twins n (moved w pos) (.ok (.next (f.continueWith stack) h))
        (.ok (.next ((f.moved w pos).continueWith stack) h')) := on stack ▸ .next _ alike
  by_cases short : f.stack.length < i.pops f.returnsValue
  · rw [exec_underflow short, exec_underflow (f := f.moved w pos) short]
    exact .failed _
  have enough := Nat.not_lt.1 short
  cases i with
  | nop | ldint | ldstr | ldnull => exact goes alike _
  | ldarg index =>
    rw [exec_ldarg, exec_ldarg, show (f.moved w pos).args = f.args from rfl]
    cases f.args[index.toNat]? with
    | none => exact .failed _
    | some v => exact goes alike _
  | ldloc index =>
    rw [exec_ldloc, exec_ldloc, show (f.moved w pos).locals = f.locals from rfl]
    cases f.locals[index.toNat]? with
    | none => exact .failed _
    | some v => exact goes alike _
  | stloc index =>
    obtain ⟨v, rest, stack⟩ := List.exists_cons_of_length_pos enough
    rw [exec_stloc stack, exec_stloc (f := f.moved w pos) stack, on,
      show (f.moved w pos).locals = f.locals from rfl]
    split
    · exact .next { f.continueWith rest with locals := _ } alike
    · exact .failed _
  | ldfld field =>
    obtain ⟨v, rest, stack⟩ := List.exists_cons_of_length_pos enough
    by_cases null : v = .null
    · rw [exec_ldfld_null (null ▸ stack), exec_ldfld_null (f := f.moved w pos) (null ▸ stack)]
      exact .failed _
    · rw [exec_ldfld stack null, exec_ldfld (f := f.moved w pos) stack null,
        alike.field v field.name]
      cases h.field v field.name with
      | error e => exact .failed e
      | ok content => exact goes alike _
  | stfld field =>
    obtain ⟨content, below, stack⟩ := List.exists_cons_of_length_pos (Nat.lt_of_succ_lt enough)
    have enough' : 0 < below.length := by
      rw [stack] at enough
      exact Nat.lt_of_succ_le (Nat.le_of_succ_le_succ enough)
    obtain ⟨v, rest, rfl⟩ := List.exists_cons_of_length_pos enough'
    by_cases null : v = .null
    · rw [exec_stfld_null (null ▸ stack), exec_stfld_null (f := f.moved w pos) (null ▸ stack)]
      exact .failed _
    · rw [exec_stfld stack null, exec_stfld (f := f.moved w pos) stack null]
      obtain ⟨e, failed, failed'⟩ | ⟨h₁, h₁', stored, stored', alike'⟩ :=
        alike.setField v field.name content
      · rw [failed, failed']
        exact .failed e
      · rw [stored, stored']
        exact goes alike' _
  | newobj constructor =>
    have all : constructor.params.length ≤ f.stack.length := enough
    rw [exec_newobj, exec_newobj, show (f.moved w pos).stack = f.stack from rfl, take?, if_pos all]
    dsimp only
    rw [on]
    exact .construct _ _ _
  | invoke method isVirtual =>
    have all : method.arity ≤ f.stack.length := enough
    rw [exec_invoke, exec_invoke, show (f.moved w pos).stack = f.stack from rfl, take?, if_pos all]
    dsimp only
    rw [on]
    exact .invoke _ _
  | dup =>
    obtain ⟨v, rest, stack⟩ := List.exists_cons_of_length_pos enough
    rw [exec_dup stack, exec_dup (f := f.moved w pos) stack]
    exact goes alike _
  | pop =>
    obtain ⟨v, rest, stack⟩ := List.exists_cons_of_length_pos enough
    rw [exec_pop stack, exec_pop (f := f.moved w pos) stack]
    exact goes alike _
  | branch condition target =>
    by_cases always : condition = .always
    · subst always
      rw [exec_always, exec_always]
      exact jump_moved (leads target rfl) alike f.stack
    · have some : 0 < f.stack.length := by
        cases condition with
        | always => exact absurd rfl always
        | _ => exact enough
      obtain ⟨v, rest, stack⟩ := List.exists_cons_of_length_pos some
      rw [exec_branch stack always, exec_branch (f := f.moved w pos) stack always]
      split
      · exact jump_moved (leads target rfl) alike rest
      · exact goes alike _
  | ret =>
    rw [exec_ret, exec_ret, show (f.moved w pos).returnsValue = f.returnsValue from rfl,
      show (f.moved w pos).stack = f.stack from rfl]
    split
    · split
      · exact .leave _
      · exact .failed _
    · exact .leave _
  | throw =>
    obtain ⟨v, rest, stack⟩ := List.exists_cons_of_length_pos enough
    rw [exec_throw stack, exec_throw (f := f.moved w pos) stack]
    exact .failed _

end Frame

end ReleaseWeaver.Machine
