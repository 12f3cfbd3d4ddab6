import ReleaseWeaver.Proofs.Machine.Runs

/-
  One instruction of an activation, case by case: an equation for each instruction and shape of
  the stack, and the relation `Executes` of what an instruction that succeeds comes to.
-/

namespace ReleaseWeaver.Machine

theorem Heap.object_eq_ok {h : Heap} {v : Value} {n : Nat} {o : Object} :
    h.object v = .ok (n, o) ↔ v = .object n ∧ h.get? n = some o := by
  refine ⟨fun found => ?_, fun ⟨same, there⟩ => by rw [same, Heap.object, there]⟩
  unfold Heap.object at found
  split at found
  · next k =>
    split at found
    · next o' there =>
      cases found
      exact ⟨rfl, there⟩
    · cases found
  · cases found
  · cases found

namespace Frame

section Equations

variable (f : Frame) (h : Heap)

theorem exec_ldarg (index : UInt16) : f.exec h (.ldarg index) =
    match f.args[index.toNat]? with
    | some v => .ok (.next (f.continueWith (v :: f.stack)) h)
    | none => .error (.badArgument index) := rfl

theorem exec_ldloc (index : UInt16) : f.exec h (.ldloc index) =
    match f.locals[index.toNat]? with
    | some v => .ok (.next (f.continueWith (v :: f.stack)) h)
    | none => .error (.badLocal index) := rfl

theorem exec_newobj (constructor : MethodRef) : f.exec h (.newobj constructor) =
    match take? f.stack constructor.params.length with
    | some (args, stack) =>
      .ok (.construct (f.continueWith stack) constructor.declaring.definitionName args)
    | none => .error (.stackUnderflow (Instr.newobj constructor).text) := rfl

theorem exec_invoke (method : MethodRef) (isVirtual : Bool) :
    f.exec h (.invoke method isVirtual) =
      match take? f.stack method.arity with
      | some (args, stack) => .ok (.invoke (f.continueWith stack) { method, args, isVirtual })
      | none => .error (.stackUnderflow (Instr.invoke method isVirtual).text) := rfl

theorem exec_always (target : Handle) : f.exec h (.branch .always target) =
    (f.jump f.stack target).map fun f' => .next f' h := rfl

theorem exec_ret : f.exec h .ret =
    if f.returnsValue then
      match f.stack with
      | v :: _ => .ok (.leave (some v))
      | [] => .error (.stackUnderflow Instr.ret.text)
    else .ok (.leave none) := rfl

variable {f h} {v content : Value} {rest : List Value}

theorem exec_stloc (stack : f.stack = v :: rest) (index : UInt16) : f.exec h (.stloc index) =
    if index.toNat < f.locals.length then
      .ok (.next { f.continueWith rest with locals := f.locals.set index.toNat v } h)
    else .error (.badLocal index) := by
  cases f
  cases stack
  rfl

theorem exec_ldfld_null (stack : f.stack = .null :: rest) (field : FieldRef) :
    f.exec h (.ldfld field) = .error (.nullReference (Instr.ldfld field).text) := by
  cases f
  cases stack
  rfl

theorem exec_ldfld (stack : f.stack = v :: rest) (solid : v ≠ .null) (field : FieldRef) :
    f.exec h (.ldfld field) =
      (h.field v field.name).map fun content => .next (f.continueWith (content :: rest)) h := by
  cases v with
  | null => exact absurd rfl solid
  | _ =>
    cases f
    cases stack
    rfl

theorem exec_stfld_null (stack : f.stack = content :: .null :: rest) (field : FieldRef) :
    f.exec h (.stfld field) = .error (.nullReference (Instr.stfld field).text) := by
  cases f
  cases stack
  rfl

theorem exec_stfld (stack : f.stack = content :: v :: rest) (solid : v ≠ .null)
    (field : FieldRef) : f.exec h (.stfld field) =
      (h.setField v field.name content).map fun h' => .next (f.continueWith rest) h' := by
  cases v with
  | null => exact absurd rfl solid
  | _ =>
    cases f
    cases stack
    rfl

theorem exec_dup (stack : f.stack = v :: rest) :
    f.exec h .dup = .ok (.next (f.continueWith (v :: v :: rest)) h) := by
  cases f
  cases stack
  rfl

theorem exec_pop (stack : f.stack = v :: rest) :
    f.exec h .pop = .ok (.next (f.continueWith rest) h) := by
  cases f
  cases stack
  rfl

theorem exec_branch (stack : f.stack = v :: rest) {on : Condition} (conditional : on ≠ .always)
    (target : Handle) : f.exec h (.branch on target) =
      if takes on v then (f.jump rest target).map fun f' => .next f' h
      else .ok (.next (f.continueWith rest) h) := by
  cases on with
  | always => exact absurd rfl conditional
  | _ =>
    cases f
    cases stack
    rfl

theorem exec_throw (stack : f.stack = v :: rest) : f.exec h .throw = .error (.thrown v) := by
  cases f
  cases stack
  rfl

/-- Without its operands an instruction fails. -/
theorem exec_underflow {i : Instr} (short : f.stack.length < i.pops f.returnsValue) :
    f.exec h i = .error (.stackUnderflow i.text) := by
  cases i with
  | nop | ldarg | ldloc | ldint | ldstr | ldnull => simp [Instr.pops] at short
  | newobj constructor =>
    have few : ¬constructor.params.length ≤ f.stack.length := Nat.not_le.2 short
    rw [exec_newobj, take?, if_neg few]
  | invoke method isVirtual =>
    have few : ¬method.arity ≤ f.stack.length := Nat.not_le.2 short
    rw [exec_invoke, take?, if_neg few]
  | branch on target =>
    cases on with
    | always => simp [Instr.pops] at short
    | _ =>
      have empty : f.stack = [] := by
        simpa [Instr.pops] using short
      simp only [exec, empty]
  | ret =>
    cases value : f.returnsValue with
    | false => simp [Instr.pops, value] at short
    | true =>
      have empty : f.stack = [] := by
        simpa [Instr.pops, value] using short
      simp [exec_ret, value, empty]
  | stfld field =>
    cases stack : f.stack with
    | nil => simp only [exec, stack]
    | cons content below =>
      have empty : below = [] := by
        rw [stack] at short
        exact List.length_eq_zero_iff.1 (Nat.lt_one_iff.1 (Nat.lt_of_succ_lt_succ short))
      simp only [exec, stack, empty]
  | _ =>
    have empty : f.stack = [] := by
      simpa [Instr.pops] using short
    simp only [exec, empty]

end Equations

/-- What an instruction that succeeds comes to. -/
inductive Executes (f : Frame) (h : Heap) : Instr → Effect → Prop where
  | nop : Executes f h .nop (.next (f.continueWith f.stack) h)
  | ldarg {index v} : f.args[index.toNat]? = some v →
      Executes f h (.ldarg index) (.next (f.continueWith (v :: f.stack)) h)
  | ldloc {index v} : f.locals[index.toNat]? = some v →
      Executes f h (.ldloc index) (.next (f.continueWith (v :: f.stack)) h)
  | stloc {index v rest} : f.stack = v :: rest → index.toNat < f.locals.length →
      Executes f h (.stloc index)
        (.next { f.continueWith rest with locals := f.locals.set index.toNat v } h)
  | ldint {value} : Executes f h (.ldint value) (.next (f.continueWith (.int value :: f.stack)) h)
  | ldstr {value} : Executes f h (.ldstr value) (.next (f.continueWith (.str value :: f.stack)) h)
  | ldnull : Executes f h .ldnull (.next (f.continueWith (.null :: f.stack)) h)
  | ldfld {field n o rest} : f.stack = .object n :: rest → h.get? n = some o →
      Executes f h (.ldfld field) (.next (f.continueWith (o.field field.name :: rest)) h)
  | stfld {field content n o rest} : f.stack = content :: .object n :: rest →
      h.get? n = some o → Executes f h (.stfld field)
        (.next (f.continueWith rest) (h.modify (·.setField field.name content) n))
  | newobj {constructor} : constructor.params.length ≤ f.stack.length →
      Executes f h (.newobj constructor)
        (.construct (f.continueWith (f.stack.drop constructor.params.length))
          constructor.declaring.definitionName (f.stack.take constructor.params.length).reverse)
  | invoke {method isVirtual} : method.arity ≤ f.stack.length →
      Executes f h (.invoke method isVirtual)
        (.invoke (f.continueWith (f.stack.drop method.arity))
          { method, args := (f.stack.take method.arity).reverse, isVirtual })
  | dup {v rest} : f.stack = v :: rest →
      Executes f h .dup (.next (f.continueWith (v :: v :: rest)) h)
  | pop {v rest} : f.stack = v :: rest → Executes f h .pop (.next (f.continueWith rest) h)
  | always {target position} : f.body.position? target = some position →
      Executes f h (.branch .always target) (.next { f with position } h)
  | taken {on target v rest position} : f.stack = v :: rest →
      f.body.position? target = some position →
      Executes f h (.branch on target) (.next { f with stack := rest, position } h)
  | passed {on target v rest} : f.stack = v :: rest → on ≠ .always →
      Executes f h (.branch on target) (.next (f.continueWith rest) h)
  | ret {result} : (f.returnsValue = true → ∃ v rest, f.stack = v :: rest ∧ result = some v) →
      (f.returnsValue = false → result = none) → Executes f h .ret (.leave result)

variable {f : Frame} {h : Heap} {i : Instr} {effect : Effect}

theorem jump_eq_ok {stack : List Value} {target : Handle} {f' : Frame}
    (jumps : f.jump stack target = .ok f') :
    ∃ position, f.body.position? target = some position ∧ f' = { f with stack, position } := by
  unfold jump at jumps
  split at jumps
  · next position found =>
    cases jumps
    exact ⟨position, found, rfl⟩
  · cases jumps

theorem field_eq_ok {v content : Value} {name : String} (read : h.field v name = .ok content) :
    ∃ n o, v = .object n ∧ h.get? n = some o ∧ content = o.field name := by
  unfold Heap.field at read
  cases found : h.object v with
  | error e => rw [found] at read; cases read
  | ok known =>
    obtain ⟨n, o⟩ := known
    obtain ⟨same, there⟩ := Heap.object_eq_ok.1 found
    rw [found] at read
    cases read
    exact ⟨n, o, same, there, rfl⟩

theorem setField_eq_ok {v content : Value} {name : String} {h' : Heap}
    (stored : h.setField v name content = .ok h') :
    ∃ n o, v = .object n ∧ h.get? n = some o ∧ h' = h.modify (·.setField name content) n := by
  unfold Heap.setField at stored
  cases found : h.object v with
  | error e => rw [found] at stored; cases stored
  | ok known =>
    obtain ⟨n, o⟩ := known
    obtain ⟨same, there⟩ := Heap.object_eq_ok.1 found
    rw [found] at stored
    cases stored
    exact ⟨n, o, same, there, rfl⟩

theorem map_eq_ok {α β ε : Type} {r : Except ε α} {g : α → β} {b : β} (h : r.map g = .ok b) :
    ∃ a, r = .ok a ∧ b = g a := by
  cases r with
  | error e => cases h
  | ok a =>
    cases h
    exact ⟨a, rfl, rfl⟩

theorem executes_of_exec (run : f.exec h i = .ok effect) : f.Executes h i effect := by
  have enough : i.pops f.returnsValue ≤ f.stack.length := by
    by_contra short
    rw [exec_underflow (Nat.not_le.1 short)] at run
    cases run
  cases i with
  | nop => cases run; exact .nop
  | ldint => cases run; exact .ldint
  | ldstr => cases run; exact .ldstr
  | ldnull => cases run; exact .ldnull
  | ldarg index =>
    rw [exec_ldarg] at run
    split at run
    · next v there => cases run; exact .ldarg there
    · cases run
  | ldloc index =>
    rw [exec_ldloc] at run
    split at run
    · next v there => cases run; exact .ldloc there
    · cases run
  | stloc index =>
    obtain ⟨v, rest, stack⟩ := List.exists_cons_of_length_pos enough
    rw [exec_stloc stack] at run
    split at run
    · next inside => cases run; exact .stloc stack inside
    · cases run
  | ldfld field =>
    obtain ⟨v, rest, stack⟩ := List.exists_cons_of_length_pos enough
    by_cases null : v = .null
    · rw [exec_ldfld_null (null ▸ stack)] at run
      cases run
    · rw [exec_ldfld stack null] at run
      obtain ⟨content, read, rfl⟩ := map_eq_ok run
      obtain ⟨n, o, rfl, there, rfl⟩ := field_eq_ok read
      exact .ldfld stack there
  | stfld field =>
    obtain ⟨content, below, stack⟩ := List.exists_cons_of_length_pos (Nat.lt_of_succ_lt enough)
    have enough' : 0 < below.length := by
      rw [stack] at enough
      exact Nat.lt_of_succ_le (Nat.le_of_succ_le_succ enough)
    obtain ⟨v, rest, rfl⟩ := List.exists_cons_of_length_pos enough'
    by_cases null : v = .null
    · rw [exec_stfld_null (null ▸ stack)] at run
      cases run
    · rw [exec_stfld stack null] at run
      obtain ⟨h', stored, rfl⟩ := map_eq_ok run
      obtain ⟨n, o, rfl, there, rfl⟩ := setField_eq_ok stored
      exact .stfld stack there
  | newobj constructor =>
    have all : constructor.params.length ≤ f.stack.length := enough
    rw [exec_newobj, take?, if_pos all] at run
    cases run
    exact .newobj all
  | invoke method isVirtual =>
    have all : method.arity ≤ f.stack.length := enough
    rw [exec_invoke, take?, if_pos all] at run
    cases run
    exact .invoke all
  | dup =>
    obtain ⟨v, rest, stack⟩ := List.exists_cons_of_length_pos enough
    rw [exec_dup stack] at run
    cases run
    exact .dup stack
  | pop =>
    obtain ⟨v, rest, stack⟩ := List.exists_cons_of_length_pos enough
    rw [exec_pop stack] at run
    cases run
    exact .pop stack
  | branch on target =>
    by_cases always : on = .always
    · subst always
      rw [exec_always] at run
      obtain ⟨f', jumps, rfl⟩ := map_eq_ok run
      obtain ⟨position, found, rfl⟩ := jump_eq_ok jumps
      exact .always found
    · have some : 0 < f.stack.length := by
        cases on with
        | always => exact absurd rfl always
        | _ => exact enough
      obtain ⟨v, rest, stack⟩ := List.exists_cons_of_length_pos some
      rw [exec_branch stack always] at run
      split at run
      · obtain ⟨f', jumps, rfl⟩ := map_eq_ok run
        obtain ⟨position, found, rfl⟩ := jump_eq_ok jumps
        exact .taken stack found
      · cases run
        exact .passed stack always
  | ret =>
    rw [exec_ret] at run
    split at run
    · next value =>
      split at run
      · next v rest stack =>
        cases run
        exact .ret (fun _ => ⟨v, rest, stack, rfl⟩) fun none => by rw [value] at none; cases none
      · cases run
    · next none =>
      cases run
      exact .ret (fun value => absurd value none) fun _ => rfl
  | throw =>
    obtain ⟨v, rest, stack⟩ := List.exists_cons_of_length_pos enough
    rw [exec_throw stack] at run
    cases run

theorem current?_eq_some :
    f.current? = some i ↔ ∃ h, f.body.lines[f.position]? = some (h, i) := by
  unfold current?
  constructor
  · intro here
    obtain ⟨⟨h, i'⟩, line, rfl⟩ := Option.map_eq_some_iff.1 here
    exact ⟨h, line⟩
  · rintro ⟨h, line⟩
    rw [line]
    rfl

/-- Where an instruction leads. -/
theorem Executes.next_position {f' : Frame} {h' : Heap}
    (executes : f.Executes h i (.next f' h')) :
    f'.key = f.key ∧ f'.body = f.body ∧ f'.args = f.args ∧
      (f'.position = f.position + 1 ∨
        ∃ t, i.target? = some t ∧ f.body.position? t = some f'.position) := by
  cases executes with
  | always found => exact ⟨rfl, rfl, rfl, .inr ⟨_, rfl, found⟩⟩
  | taken _ found => exact ⟨rfl, rfl, rfl, .inr ⟨_, rfl, found⟩⟩
  | _ => exact ⟨rfl, rfl, rfl, .inl rfl⟩

end Frame

end ReleaseWeaver.Machine
