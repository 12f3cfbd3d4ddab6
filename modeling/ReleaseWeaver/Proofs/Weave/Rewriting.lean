import ReleaseWeaver.Proofs.Code.Splice
import ReleaseWeaver.Proofs.Metadata.Changes
import ReleaseWeaver.Weave.Pass

/-
  What the passes make of bodies and modules, told without the session. The run that follows
  each handle call and the run before the final exit always find their place: the calls stay in
  the body, and no insertion takes the final exit away. So each change of a target is a plain
  function of the module.
-/

namespace ReleaseWeaver

theorem Instr.isHandleCall_iff {contract : TypeRef} {fragment : String} {i : Instr} :
    i.isHandleCall contract fragment = true ↔ ∃ method isVirtual, i = .invoke method isVirtual ∧
      (method.returns == some contract) = true ∧
        Text.hasFragment fragment method.fullName = true := by
  cases i with
  | invoke method isVirtual =>
    simp only [isHandleCall, invoked?, Bool.and_eq_true]
    grind
  | _ => simp [isHandleCall, invoked?]

namespace Body

variable {b : Body} {run : List Instr}

theorem mem_handleCalls {contract : TypeRef} {fragment : String} {h : Handle} :
    h ∈ b.handleCalls contract fragment ↔
      ∃ i, (h, i) ∈ b.lines ∧ i.isHandleCall contract fragment = true := by
  simp [handleCalls]

/-! ## The final exit -/

theorem finalExit?_insertAt {p : Nat} (inside : p < b.lines.length) :
    (b.insertAt p run).finalExit? = b.finalExit? := by
  have last : (b.insertAt p run).lines.getLast? = b.lines.getLast? := by
    rw [lines_insertAt, ← List.append_assoc,
      List.getLast?_append_of_ne_nil _ (by simpa using inside)]
    conv_rhs => rw [← List.take_append_drop p b.lines]
    rw [List.getLast?_append_of_ne_nil _ (by simpa using inside)]
  rw [finalExit?_eq, finalExit?_eq, last]

theorem finalExit?_retarget (b : Body) (source goal : Handle) :
    (b.retarget source goal).finalExit? = b.finalExit? := by
  rw [finalExit?_eq, finalExit?_eq, lines_retarget, List.getLast?_map]
  cases b.lines.getLast? with
  | none => rfl
  | some l =>
    rw [Option.map_some, Option.filter_some, Option.filter_some, isRet_retargetLine]
    split <;> rfl

/-! ## Registration -/

/-- What holds of a body and survives the insertion of the run after one of the calls holds in
the end. -/
theorem insertAfterEach_induction (kept : Body → Prop) {calls : List Handle} (start : kept b)
    (step : ∀ b h p, kept b → h ∈ calls → b.position? h = some p → kept (b.insertAt (p + 1) run)) :
    kept (insertAfterEach run calls b).1 := by
  induction calls generalizing b with
  | nil => exact start
  | cons h rest ih =>
    unfold insertAfterEach insertAfter
    cases found : b.position? h with
    | none => exact start
    | some p =>
      refine ih (step b h p start List.mem_cons_self found) ?_
      exact fun b' h' p' kept' listed found' =>
        step b' h' p' kept' (List.mem_cons_of_mem h listed) found'

/-- Known calls stay known, so that every insertion finds its call. -/
theorem insertAfterEach_ok {calls : List Handle} (known : ∀ h ∈ calls, h ∈ b.handles) :
    (insertAfterEach run calls b).2 = .ok () := by
  induction calls generalizing b with
  | nil => rfl
  | cons h rest ih =>
    obtain ⟨p, found⟩ := position?_isSome.2 (known h List.mem_cons_self)
    simp only [insertAfterEach, insertAfter, found]
    refine ih fun h' listed => mem_handles_insertAt.2 (.inl ?_)
    exact known h' (List.mem_cons_of_mem h listed)

/-- The registration of all handle calls of a body goes through. -/
theorem register_eq (b : Body) (field : FieldRef) (helper : MethodRef) (contract : TypeRef)
    (fragment : String) : b.register field helper (b.handleCalls contract fragment) =
      ((insertAfterEach (registration field helper) (b.handleCalls contract fragment) b).1,
        .ok (b.handleCalls contract fragment).length) := by
  have done : (insertAfterEach (registration field helper) (b.handleCalls contract fragment) b).2 =
      .ok () := by
    refine insertAfterEach_ok fun h listed => ?_
    obtain ⟨i, line, _⟩ := mem_handleCalls.1 listed
    exact fst_mem_handles line
  simp only [register, done]
  rfl

/-- The body with the registration after each of its handle calls. -/
def registered (c : WeaveContext) (field : FieldRef) (b : Body) : Body :=
  (insertAfterEach (registration field c.collaborators.helper)
    (b.handleCalls c.collaborators.contract c.config.handleCallFragment) b).1

theorem register_handleCalls (c : WeaveContext) (field : FieldRef) (b : Body) :
    b.register field c.collaborators.helper
        (b.handleCalls c.collaborators.contract c.config.handleCallFragment) =
      (b.registered c field,
        .ok (b.handleCalls c.collaborators.contract c.config.handleCallFragment).length) :=
  b.register_eq field _ _ _

/-- Induction along the registrations of a body: each comes right after the line of a handle call
of the original. -/
theorem registered_induction (kept : Body → Prop) {c : WeaveContext} {field : FieldRef}
    (start : kept b)
    (step : ∀ b' h i p, kept b' → (h, i) ∈ b.lines →
      i.isHandleCall c.collaborators.contract c.config.handleCallFragment = true →
      b'.lines[p]? = some (h, i) →
      kept (b'.insertAt (p + 1) (registration field c.collaborators.helper))) :
    kept (b.registered c field) := by
  have both : kept (b.registered c field) ∧ ∀ l ∈ b.lines, l ∈ (b.registered c field).lines := by
    refine insertAfterEach_induction (fun b' => kept b' ∧ ∀ l ∈ b.lines, l ∈ b'.lines)
      ⟨start, fun l line => line⟩ fun b' h p ⟨kept', lines⟩ listed found => ?_
    obtain ⟨i, line, call⟩ := mem_handleCalls.1 listed
    obtain ⟨i', line'⟩ := position?_eq_some.1 found
    have same := line_unique (lines _ line) (List.mem_of_getElem? line') rfl
    cases same
    exact ⟨step b' h i p kept' line call line',
      fun l listed' => mem_lines_insertAt.2 (.inl (lines l listed'))⟩
  exact both.1

theorem finalExit?_registered (c : WeaveContext) (field : FieldRef) (b : Body) :
    (b.registered c field).finalExit? = b.finalExit? := by
  refine registered_induction (fun b' => b'.finalExit? = b.finalExit?) rfl
    fun b' h i p same _ call line => ?_
  obtain ⟨method, isVirtual, rfl, _⟩ := Instr.isHandleCall_iff.1 call
  by_cases inside : p + 1 < b'.lines.length
  · rw [finalExit?_insertAt inside, same]
  · -- The call is the last line, so neither body ends in a `ret`.
    obtain ⟨bound, _⟩ := List.getElem?_eq_some_iff.1 line
    have last : b'.lines.getLast? = some (h, .invoke method isVirtual) := by
      rw [List.getLast?_eq_getElem?, show b'.lines.length - 1 = p by omega, line]
    have empty : b'.lines.drop (p + 1) = [] := List.drop_eq_nil_of_le (by omega)
    have last' : (b'.insertAt (p + 1) (registration field c.collaborators.helper)).lines.getLast? =
        some (.nth (b'.length + 1 + 2), .call c.collaborators.helper) := by
      rw [lines_insertAt, empty, List.append_nil, List.getLast?_append_of_ne_nil _ (by
        exact List.ne_nil_of_length_pos (by rw [length_fresh]; exact Nat.zero_lt_succ 2))]
      rfl
    rw [← same, finalExit?_eq, finalExit?_eq, last, last']
    rfl

/-! ## Release -/

/-- The body with a run before its final exit. -/
def released (run : List Instr) (b : Body) : Body :=
  match b.finalExit? with
  | none => b
  | some exit => match b.insertBeforeRetargeting exit run with
    | .ok b' => b'
    | .error _ => b

theorem released_eq {exit : Handle} (i : Instr) (run : List Instr)
    (final : b.finalExit? = some exit) :
    ∃ p, b.position? exit = some p ∧ p + 1 = b.lines.length ∧
      b.insertBeforeRetargeting exit (i :: run) = .ok (b.released (i :: run)) ∧
      b.released (i :: run) = (b.insertAt p (i :: run)).retarget exit (.nth (b.length + 1)) := by
  obtain ⟨p, found⟩ := position?_isSome.2 (mem_handles_of_finalExit? final)
  have inserted := insertBeforeRetargeting_eq found i run
  have result : b.released (i :: run) =
      (b.insertAt p (i :: run)).retarget exit (.nth (b.length + 1)) := by
    rw [released, final]
    simp only [inserted]
  refine ⟨p, found, ?_, by rw [inserted, result], result⟩
  obtain ⟨i', line⟩ := position?_eq_some.1 found
  have last := finalExit?_eq_some.1 final
  rw [List.getLast?_eq_getElem?] at last
  obtain ⟨inside, eq⟩ := List.getElem?_eq_some_iff.1 line
  obtain ⟨inside', eq'⟩ := List.getElem?_eq_some_iff.1 last
  have first : p < b.handles.length := by simpa [handles] using inside
  have second : b.lines.length - 1 < b.handles.length := by simpa [handles] using inside'
  have same : b.handles[p] = b.handles[b.lines.length - 1] := by simp [handles, eq, eq']
  have := (List.Nodup.getElem_inj_iff b.nodup_handles).1 same
  omega

theorem insertBeforeRetargeting_released {exit : Handle} (final : b.finalExit? = some exit)
    (run : List Instr) : b.insertBeforeRetargeting exit run = .ok (b.released run) := by
  obtain ⟨p, found⟩ := position?_isSome.2 (mem_handles_of_finalExit? final)
  have inserted : ∃ b', b.insertBeforeRetargeting exit run = .ok b' := by
    rw [insertBeforeRetargeting, insertBefore, found]
    exact ⟨_, rfl⟩
  obtain ⟨b', inserted⟩ := inserted
  rw [released, final]
  simp only [inserted]

theorem finalExit?_released (run : List Instr) (b : Body) :
    (b.released run).finalExit? = b.finalExit? := by
  cases final : b.finalExit? with
  | none => rw [released, final, final]
  | some exit =>
    cases run with
    | nil =>
      obtain ⟨p, found⟩ := position?_isSome.2 (mem_handles_of_finalExit? final)
      obtain ⟨i, line⟩ := position?_eq_some.1 found
      obtain ⟨inside, _⟩ := List.getElem?_eq_some_iff.1 line
      have result : b.released [] = b.insertAt p [] := by
        simp [released, final, insertBeforeRetargeting, insertBefore, found, nextHandles,
          Handle.series]
      rw [result, finalExit?_insertAt inside, final]
    | cons i run =>
      obtain ⟨p, _, bound, _, result⟩ := released_eq i run final
      rw [result, finalExit?_retarget, finalExit?_insertAt (by omega), final]

end Body

/-! ## Methods -/

namespace MethodDef

def registered (c : WeaveContext) (field : FieldRef) (d : MethodDef) : MethodDef :=
  { d with body := d.body.map (Body.registered c field) }

def released (run : List Instr) (d : MethodDef) : MethodDef :=
  { d with body := d.body.map (Body.released run) }

/-- The method as its callers see it, and its final exit. -/
def outline (d : MethodDef) : MethodDef × Option Handle := ({ d with body := none }, d.finalExit?)

theorem finalExit?_of_outline {d d' : MethodDef} (same : d'.outline = d.outline) :
    d'.finalExit? = d.finalExit? := congrArg Prod.snd same

theorem outline_registered (c : WeaveContext) (field : FieldRef) (d : MethodDef) :
    (d.registered c field).outline = d.outline := by
  obtain ⟨name, returns, params, flags, visibility, attributes, body⟩ := d
  cases body with
  | none => rfl
  | some b => exact congrArg (Prod.mk _) (Body.finalExit?_registered c field b)

theorem outline_released (run : List Instr) (d : MethodDef) :
    (d.released run).outline = d.outline := by
  obtain ⟨name, returns, params, flags, visibility, attributes, body⟩ := d
  cases body with
  | none => rfl
  | some b => exact congrArg (Prod.mk _) (Body.finalExit?_released run b)

theorem outline_withPrologue (run : List Instr) (d : MethodDef) :
    (d.withPrologue run).outline = d.outline := by
  unfold withPrologue
  split
  · next takes =>
    obtain ⟨name, returns, params, flags, visibility, attributes, body⟩ := d
    cases body with
    | none => rfl
    | some b =>
      have filled : b.isEmpty = false := by
        simp only [takesPrologue, Bool.and_eq_true, Option.map_some, Option.getD_some,
          Bool.not_eq_true'] at takes
        exact takes.2
      have inside : 0 < b.lines.length :=
        List.length_pos_iff.2 (by simpa [Body.isEmpty] using filled)
      exact congrArg (Prod.mk _) (Body.finalExit?_insertAt inside)
  · rfl

end MethodDef

/-! ## Modules -/

/-- The field that holds the container of a target's objects. -/
def WeaveContext.trackingField (c : WeaveContext) (t : TypeDef) : FieldDef where
  name := trackingFieldName c.config.fieldPrefix t.name
  type := c.collaborators.container

namespace Module

variable {m : Module}

def withField (m : Module) (owner : String) (d : FieldDef) : Module :=
  m.modifyType owner fun t => { t with fields := t.fields ++ [d] }

/-- The tracking field clashes with a field of the target, or it is added. -/
theorem addTrackingField_eq (m : Module) (c : WeaveContext) (t : TypeDef) :
    m.addTrackingField t c.config.fieldPrefix c.collaborators.container =
      if m.declaresField t.definitionName (c.trackingField t).name then
        .error (.trackingFieldExists t.definitionName)
      else .ok (m.withField t.definitionName (c.trackingField t), t.fieldRef (c.trackingField t)) := by
  by_cases clash : m.declaresField t.definitionName (c.trackingField t).name = true
  · rw [if_pos clash]
    exact if_pos clash
  · rw [if_neg clash]
    refine (if_neg clash).trans ?_
    rw [addField, if_neg]
    · rfl
    · exact clash

/-- Register the handles of one method. -/
def registerIn (c : WeaveContext) (field : FieldRef) (m : Module) (key : MethodKey) : Module :=
  m.modifyMethod key (MethodDef.registered c field)

def registerAll (c : WeaveContext) (field : FieldRef) (keys : List MethodKey) (m : Module) :
    Module :=
  keys.foldl (registerIn c field) m

/-- Put a run before the final exit of one method. -/
def releaseIn (key : MethodKey) (run : List Instr) (m : Module) : Module :=
  m.modifyMethod key (MethodDef.released run)

/-- Carry out a plan for the type of a name. -/
def ensured (m : Module) (typeName : String) (plan : TeardownPlan) : Module × MethodKey :=
  m.ensureTeardown ((m.findType? typeName).getD default) plan

/-- Field, prologues and registrations of a handle target. -/
def instrumented (c : WeaveContext) (target : Target) (t : TypeDef) (m : Module) : Module :=
  registerAll c (t.fieldRef (c.trackingField t)) ((target.methods c.markers t).map Prod.fst)
    ((m.withField t.definitionName (c.trackingField t)).instrumentConstructors target.typeName
      (t.fieldRef (c.trackingField t)) c.collaborators.containerConstructor).1

/-- All that the handle pass does to a target. -/
def trackTarget (c : WeaveContext) (target : Target) (t : TypeDef) (plan : TeardownPlan)
    (m : Module) : Module :=
  let (m', teardown) := (m.instrumented c target t).ensured target.typeName plan
  m'.releaseIn teardown
    (releaseField (t.fieldRef (c.trackingField t)) c.collaborators.containerRelease)

/-- All that the command pass does to a target. -/
def releaseTarget (c : WeaveContext) (getters : List MethodRef) (target : Target)
    (plan : TeardownPlan) (m : Module) : Module :=
  let (m', teardown) := m.ensured target.typeName plan
  getters.foldl (fun m getter =>
    m.releaseIn teardown (releaseProperty getter c.collaborators.contractRelease)) m'

theorem findMethod?_withField (m : Module) (owner : String) (d : FieldDef) (key : MethodKey) :
    (m.withField owner d).findMethod? key = m.findMethod? key := by
  have same : (m.withField owner d).findMethod? key =
      (m.findMethod? key).map fun d => if key.owner = owner then id d else d :=
    findMethod?_modifyType (g := id) (f := fun t => { t with fields := t.fields ++ [d] })
      (fun t => (List.map_id _).symm) key
  simpa using same

theorem findMethod?_instrumentConstructors (m : Module) (typeName : String) (field : FieldRef)
    (constructor : MethodRef) (key : MethodKey) :
    (m.instrumentConstructors typeName field constructor).1.findMethod? key =
      (m.findMethod? key).map fun d =>
        if key.owner = typeName then d.withPrologue (prologue field constructor) else d :=
  findMethod?_modifyType (f := fun t => { t with
    methods := t.methods.map fun d => d.withPrologue (prologue field constructor) })
    (fun _ => rfl) key

theorem findMethod?_registerAll {c : WeaveContext} {field : FieldRef} {keys : List MethodKey}
    (once : keys.Nodup) (m : Module) (key : MethodKey) :
    (m.registerAll c field keys).findMethod? key =
      (m.findMethod? key).map fun d => if key ∈ keys then d.registered c field else d := by
  induction keys generalizing m with
  | nil => simp [registerAll]
  | cons first rest ih =>
    obtain ⟨fresh, once'⟩ := List.nodup_cons.1 once
    rw [registerAll, List.foldl_cons]
    rw [show rest.foldl (registerIn c field) (registerIn c field m first) =
      registerAll c field rest (registerIn c field m first) from rfl]
    rw [ih once', registerIn, findMethod?_modifyMethod, Option.map_map]
    congr 1
    funext d
    rw [Function.comp_apply]
    by_cases here : key = first
    · rw [if_pos here, if_neg (here ▸ fresh), if_pos (here ▸ List.mem_cons_self)]
    · rw [if_neg here]
      simp only [List.mem_cons, here, false_or]

theorem findMethod?_releaseIn (m : Module) (teardown : MethodKey) (run : List Instr)
    (key : MethodKey) : (m.releaseIn teardown run).findMethod? key =
      (m.findMethod? key).map fun d => if key = teardown then d.released run else d :=
  findMethod?_modifyMethod m teardown _ key

/-! ## Shapes and fields -/

theorem shapes_withField (m : Module) (owner : String) (d : FieldDef) :
    (m.withField owner d).shapes = m.shapes := shapes_modifyType fun _ => rfl

theorem shapes_instrumentConstructors (m : Module) (typeName : String) (field : FieldRef)
    (constructor : MethodRef) :
    (m.instrumentConstructors typeName field constructor).1.shapes = m.shapes :=
  shapes_modifyType (f := fun t => { t with
    methods := t.methods.map fun d => d.withPrologue (prologue field constructor) }) fun _ => rfl

theorem shapes_registerAll (c : WeaveContext) (field : FieldRef) (keys : List MethodKey)
    (m : Module) : (m.registerAll c field keys).shapes = m.shapes := by
  induction keys generalizing m with
  | nil => rfl
  | cons key rest ih => exact (ih (m.registerIn c field key)).trans (shapes_modifyMethod m key _)

theorem shapes_ensureTeardown (m : Module) (t : TypeDef) (plan : TeardownPlan) :
    (m.ensureTeardown t plan).1.shapes = m.shapes := by
  unfold ensureTeardown
  split
  · rfl
  · split
    · unfold synthesizeTeardown
      dsimp only
      split
      · rw [shapes_modifyMethod, shapes_addMethod]
      · exact shapes_addMethod m _ _
    · rfl

theorem shapes_instrumented (c : WeaveContext) (target : Target) (t : TypeDef) (m : Module) :
    (m.instrumented c target t).shapes = m.shapes := by
  rw [instrumented, shapes_registerAll, shapes_instrumentConstructors, shapes_withField]

theorem shapes_trackTarget (c : WeaveContext) (target : Target) (t : TypeDef) (plan : TeardownPlan)
    (m : Module) : (m.trackTarget c target t plan).shapes = m.shapes := by
  show (((m.instrumented c target t).ensured target.typeName plan).1.releaseIn _ _).shapes = _
  rw [releaseIn, shapes_modifyMethod, ensured, shapes_ensureTeardown, shapes_instrumented]

theorem shapes_releaseTarget (c : WeaveContext) (getters : List MethodRef) (target : Target)
    (plan : TeardownPlan) (m : Module) :
    (m.releaseTarget c getters target plan).shapes = m.shapes := by
  have each (m' : Module) (key : MethodKey) : (getters.foldl (fun m getter =>
      m.releaseIn key (releaseProperty getter c.collaborators.contractRelease)) m').shapes =
        m'.shapes := by
    induction getters generalizing m' with
    | nil => rfl
    | cons getter rest ih => exact (ih _).trans (shapes_modifyMethod m' key _)
  rw [releaseTarget, each, ensured, shapes_ensureTeardown]

theorem fieldsOf_ensureTeardown (m : Module) (t : TypeDef) (plan : TeardownPlan) (name : String) :
    (m.ensureTeardown t plan).1.fieldsOf name = m.fieldsOf name := by
  have added (d : MethodDef) : (m.addMethod t.definitionName d).fieldsOf name = m.fieldsOf name :=
    fieldsOf_modifyType (m := m) (f := fun t => { t with methods := t.methods ++ [d] })
      (fun _ => rfl) name
  unfold ensureTeardown
  split
  · rfl
  · split
    · unfold synthesizeTeardown
      dsimp only
      split
      · rw [fieldsOf_modifyMethod, added]
      · exact added _
    · rfl

/-- Weaving a target adds the tracking field and no other. -/
theorem fieldsOf_trackTarget (c : WeaveContext) (target : Target) (t : TypeDef)
    (plan : TeardownPlan) (m : Module) (name : String) :
    (m.trackTarget c target t plan).fieldsOf name =
      (m.withField t.definitionName (c.trackingField t)).fieldsOf name := by
  have registered (keys : List MethodKey) (m' : Module) :
      (m'.registerAll c (t.fieldRef (c.trackingField t)) keys).fieldsOf name = m'.fieldsOf name := by
    induction keys generalizing m' with
    | nil => rfl
    | cons key rest ih => exact (ih _).trans (fieldsOf_modifyMethod m' key _ name)
  show (((m.instrumented c target t).ensured target.typeName plan).1.releaseIn _ _).fieldsOf _ = _
  rw [releaseIn, fieldsOf_modifyMethod, ensured, fieldsOf_ensureTeardown, instrumented, registered,
    instrumentConstructors]
  dsimp only
  rw [fieldsOf_modifyType (by exact fun _ => rfl)]

/-- Weaving a target adds a field to the target alone. -/
theorem fieldsOf_trackTarget_of_ne (c : WeaveContext) (target : Target) (t : TypeDef)
    (plan : TeardownPlan) (m : Module) {name : String} (other : name ≠ t.definitionName) :
    (m.trackTarget c target t plan).fieldsOf name = m.fieldsOf name := by
  rw [fieldsOf_trackTarget, withField, fieldsOf_modifyType_of_ne other]

theorem fieldsOf_withField (m : Module) (name : String) (d : FieldDef) :
    (m.withField name d).fieldsOf name = (m.fieldsOf name).map fun fields => fields ++ [d] := by
  rw [fieldsOf, fieldsOf, withField, findType?_modifyType]
  cases known : m.findType? name with
  | none => rfl
  | some t =>
    rw [Option.map_some, changeNamed_of_eq (mem_of_findType? known).2]
    rfl

theorem fieldsOf_releaseTarget (c : WeaveContext) (getters : List MethodRef) (target : Target)
    (plan : TeardownPlan) (m : Module) (name : String) :
    (m.releaseTarget c getters target plan).fieldsOf name = m.fieldsOf name := by
  have each (m' : Module) (key : MethodKey) : (getters.foldl (fun m getter =>
      m.releaseIn key (releaseProperty getter c.collaborators.contractRelease)) m').fieldsOf name =
        m'.fieldsOf name := by
    induction getters generalizing m' with
    | nil => rfl
    | cons getter rest ih => exact (ih _).trans (fieldsOf_modifyMethod m' key _ name)
  rw [releaseTarget, each, ensured, fieldsOf_ensureTeardown]

end Module

end ReleaseWeaver
