import ReleaseWeaver.Proofs.Machine.Activations
import ReleaseWeaver.Proofs.Tracking.Natives

/-
  What leaves a field alone. Native code spares a field if neither it nor what it goes on with
  changes the field of an object that is there. Then a step changes the field of an object only by
  an instruction that stores into it, and what the field holds stays as long as there is no such
  instruction. The native code of the reactive library spares every field.
-/

namespace ReleaseWeaver.Machine

variable {field : String} {o : Nat} {content : Value} {h : Heap}

/-! ## Heaps -/

/-- The field of the object has this content. -/
def Heap.Has (h : Heap) (field : String) (o : Nat) (content : Value) : Prop :=
  ∃ object, h.get? o = some object ∧ object.field field = content

/-- The field of every object that is there stays what it is. -/
def Heap.Spares (field : String) (h h' : Heap) : Prop :=
  ∀ o content, h.Has field o content → h'.Has field o content

namespace Heap

theorem Spares.refl (field : String) (h : Heap) : Heap.Spares field h h := fun _ _ has => has

theorem spares_alloc (field : String) (h : Heap) (object : Object) :
    Heap.Spares field h (h.alloc object).1 := by
  rintro o content ⟨old, there, same⟩
  exact ⟨old, get?_alloc_of_get? there, same⟩

theorem spares_setNative (field : String) (h : Heap) (native : Native) (n : Nat) :
    Heap.Spares field h (h.modify (Reactive.setNative native) n) :=
  fun _ _ has => (exists_modify fun object => by rw [field_setNative]).2 has

theorem Has.setField (has : h.Has field o content) {name : String} {n : Nat} {v : Value}
    (apart : name = field → n ≠ o) : (h.modify (·.setField name v) n).Has field o content := by
  obtain ⟨object, there, same⟩ := has
  unfold Has
  rw [get?_modify]
  split
  · next here =>
    refine ⟨object.setField name v, by rw [there]; rfl, ?_⟩
    rw [field_setField, if_neg fun eq => apart eq.symm here.symm, same]
  · exact ⟨object, there, same⟩

theorem has_setField {object : Object} (there : h.get? o = some object) (field : String)
    (content : Value) : (h.modify (·.setField field content) o).Has field o content := by
  refine ⟨object.setField field content, by rw [get?_modify, if_pos rfl, there]; rfl, ?_⟩
  rw [field_setField, if_pos rfl]

end Heap

/-! ## Native code -/

/-- Native code that spares a field, whatever it is answered. -/
inductive NativeWork.Spares (field : String) : NativeWork → Prop where
  | done (outcome : Outcome) : Spares field (.done outcome)
  | ask (request : Request) {next} :
      (∀ h outcome, Heap.Spares field h (next h outcome).1) →
      (∀ h outcome, Spares field (next h outcome).2) → Spares field (.ask request next)

/-- The native code of the program spares the field. -/
def Program.Spares (p : Program) (field : String) : Prop :=
  ∀ name code, p.natives name = some code → ∀ h args,
    Heap.Spares field h (code h args).1 ∧ (code h args).2.Spares field

namespace Reactive

theorem spares_releaseAll (field : String) (result : Option Value) (values : List Value) :
    (releaseAll result values).Spares field := by
  induction values with
  | nil => exact .done _
  | cons v rest ih =>
    refine .ask _ (fun h _ => .refl field h) fun h outcome => ?_
    cases outcome with
    | ok => exact ih
    | error e => exact .done _

/-- A reply that spares the field, and that fails or goes on to release some values. -/
def Spares (field : String) (h : Heap) (reply : Heap × NativeWork) : Prop :=
  Heap.Spares field h reply.1 ∧ ((∃ e, reply.2 = .done (.error e)) ∨
    ∃ result values, reply.2 = releaseAll result values)

theorem spares_done (field : String) (h : Heap) (outcome : Outcome) :
    Spares field h (h, .done outcome) := by
  refine ⟨.refl field h, ?_⟩
  cases outcome with
  | ok result => exact .inr ⟨result, [], rfl⟩
  | error e => exact .inl ⟨e, rfl⟩

theorem spares_attempt_add (field : String) (h : Heap) (container item : Value)
    (result : Option Value) : Spares field h (attempt h (add h container item result)) := by
  obtain ⟨e, same⟩ | ⟨n, _, entries, released, _, _, _, same⟩ := attempt_add h container item result
  · rw [same]
    exact spares_done field h _
  · rw [same]
    exact ⟨Heap.spares_setNative field h _ n, .inr ⟨_, _, rfl⟩⟩

theorem spares_natives {name : String} {code : NativeCode} (known : natives name = some code)
    (field : String) (h : Heap) (args : List Value) : Spares field h (code h args) := by
  obtain rfl | rfl | rfl | rfl | rfl | rfl | rfl | rfl := natives_cases known
  · exact spares_done field h _
  · cases args with
    | nil => exact spares_done field h _
    | cons v rest =>
      rw [containerConstructor_cons]
      split
      · exact ⟨Heap.spares_setNative field h _ _, .inr ⟨_, _, rfl⟩⟩
      · exact spares_done field h _
  · match args with
    | [] | [_] => exact spares_done field h _
    | container :: item :: _ => exact spares_attempt_add field h container item none
  · cases args with
    | nil => exact spares_done field h _
    | cons v rest =>
      obtain ⟨e, same⟩ | ⟨n, _, entries, released, _, _, _, same⟩ := containerRelease_cons h v rest
      · rw [same]
        exact spares_done field h _
      · rw [same]
        split
        · exact spares_done field h (.ok none)
        · exact ⟨Heap.spares_setNative field h _ n, .inr ⟨_, _, rfl⟩⟩
  · match args with
    | [] | .null :: _ => exact spares_done field h _
    | .int _ :: _ | .str _ :: _ | .object _ :: _ =>
      exact ⟨Heap.spares_alloc field h _, .inr ⟨_, [], rfl⟩⟩
  · exact ⟨Heap.spares_alloc field h _, .inr ⟨_, [], rfl⟩⟩
  · match args with
    | [] | [_] | _ :: _ :: _ :: _ => exact spares_done field h _
    | [handle, container] => exact spares_attempt_add field h container handle (some handle)
  · cases args with
    | nil => exact spares_done field h _
    | cons v rest =>
      obtain ⟨e, same⟩ | ⟨n, _, _, _, ⟨_, _, same⟩ | ⟨_, same⟩⟩ := subscriptionRelease_cons h v rest
      · rw [same]
        exact spares_done field h _
      · rw [same]
        exact ⟨Heap.spares_setNative field h _ n, .inr ⟨_, _, rfl⟩⟩
      · rw [same]
        exact spares_done field h (.ok none)

end Reactive

theorem Program.spares_of_library {p : Program} (library : p.natives = Reactive.natives)
    (field : String) : p.Spares field := by
  intro name code known h args
  rw [library] at known
  obtain ⟨heap, ⟨e, work⟩ | ⟨result, values, work⟩⟩ := Reactive.spares_natives known field h args
  · exact ⟨heap, work ▸ .done _⟩
  · exact ⟨heap, work ▸ Reactive.spares_releaseAll field result values⟩

/-! ## Steps -/

/-- The object and the value of the next instruction, if that stores a value in the field. -/
def Frame.stores? (field : String) (f : Frame) : Option (Nat × Value) :=
  match f.current?, f.stack with
  | some (.stfld fld), content :: .object o :: _ =>
    if fld.name = field then some (o, content) else none
  | _, _ => none

namespace State

/-- The object and the value of the next step, if that stores a value in the field. -/
def stores? (field : String) (s : State) : Option (Nat × Value) :=
  match s.active with
  | .frame f => f.stores? field
  | _ => none

end State

def Active.Spares (field : String) : Active → Prop
  | .native work => work.Spares field
  | _ => True

def Caller.Spares (field : String) : Caller → Prop
  | .native next => ∀ h outcome, Heap.Spares field h (next h outcome).1 ∧
      (next h outcome).2.Spares field
  | _ => True

/-- The native code at work and the native code that waits spare the field. -/
def State.Spares (field : String) (s : State) : Prop :=
  s.active.Spares field ∧ ∀ c ∈ s.callers, c.Spares field

def Progress.heap : Progress → Heap
  | .running s => s.memory.heap
  | .finished m _ => m.heap

def Progress.Spares (field : String) : Progress → Prop
  | .running s => s.Spares field
  | .finished _ _ => True

namespace Program

variable {p : Program} {s : State} {m : Memory} {callers : List Caller} {progress : Progress}

theorem Enters.spares (enters : p.Enters m callers progress) (library : p.Spares field)
    (waiting : ∀ c ∈ callers, c.Spares field) :
    progress.Spares field ∧ Heap.Spares field m.heap progress.heap := by
  have above {m' : Memory} {callers' : List Caller} (prepared : Prepares m callers m' callers') :
      (∀ c ∈ callers', c.Spares field) ∧ Heap.Spares field m.heap m'.heap := by
    cases prepared with
    | called => exact ⟨waiting, .refl field _⟩
    | made className =>
      exact ⟨List.forall_mem_cons.2 ⟨trivial, waiting⟩, Heap.spares_alloc field m.heap _⟩
  cases enters with
  | body args prepared _ =>
    obtain ⟨waiting', spared⟩ := above prepared
    exact ⟨⟨trivial, waiting'⟩, spared⟩
  | @native m' _ _ _ args prepared known =>
    obtain ⟨waiting', spared⟩ := above prepared
    obtain ⟨spared', work⟩ := library _ _ known m'.heap args
    exact ⟨⟨work, waiting'⟩, fun o content has => spared' o content (spared o content has)⟩
  | failed e prepared => exact ⟨⟨trivial, waiting⟩, (above prepared).2⟩

theorem spares_deliver (waiting : ∀ c ∈ callers, c.Spares field) (outcome : Outcome) :
    (deliver m callers outcome).Spares field ∧
      Heap.Spares field m.heap (deliver m callers outcome).heap := by
  cases callers with
  | nil => cases outcome <;> exact ⟨trivial, .refl field _⟩
  | cons caller callers =>
    obtain ⟨first, rest⟩ := List.forall_mem_cons.1 waiting
    cases caller with
    | native next =>
      cases outcome with
      | ok result => exact ⟨⟨(first m.heap (.ok result)).2, rest⟩, (first m.heap (.ok result)).1⟩
      | error e => exact ⟨⟨(first m.heap (.error e)).2, rest⟩, (first m.heap (.error e)).1⟩
    | frame f takes => cases outcome <;> exact ⟨⟨trivial, rest⟩, .refl field _⟩
    | constructing this =>
      cases outcome with
      | ok result => exact ⟨⟨.done _, rest⟩, .refl field _⟩
      | error e => exact ⟨⟨trivial, rest⟩, .refl field _⟩

/-- A step that does not store into the field of an object leaves it alone. -/
theorem step_spares (library : p.Spares field) (spares : s.Spares field) :
    (p.step s).Spares field ∧ ∀ o content, (∀ v, s.stores? field ≠ some (o, v)) →
      s.memory.heap.Has field o content → (p.step s).heap.Has field o content := by
  obtain ⟨active, waiting⟩ := spares
  have step := p.steps s
  generalize p.step s = progress at step ⊢
  cases step with
  | moved here executes =>
    refine ⟨⟨trivial, waiting⟩, fun o content quiet has => ?_⟩
    cases executes with
    | @stfld fld v n object rest stack there =>
      refine has.setField fun named same => quiet v ?_
      show Frame.stores? _ _ = _
      rw [Frame.stores?, here, stack]
      dsimp only
      rw [if_pos named, same]
    | _ => exact has
  | @asked _ m caller request asks =>
    have same : m.heap = s.memory.heap := by cases asks <;> rfl
    have caller' : caller.Spares field := by
      cases asks with
      | construct | invoke => trivial
      | native =>
        cases active with
        | ask _ heap work => exact fun h outcome => ⟨heap h outcome, work h outcome⟩
    obtain ⟨spares, spared⟩ := (p.enters_perform m (caller :: s.callers) request).spares library
      (List.forall_mem_cons.2 ⟨caller', waiting⟩)
    exact ⟨spares, fun o content _ has => spared o content (same ▸ has)⟩
  | @ended _ m outcome ends =>
    have same : m.heap = s.memory.heap := by cases ends <;> rfl
    obtain ⟨spares, spared⟩ := spares_deliver (m := m) waiting outcome
    exact ⟨spares, fun o content _ has => spared o content (same ▸ has)⟩
  | stuck => exact ⟨⟨trivial, waiting⟩, fun _ _ _ has => has⟩

/-! ## Runs -/

variable {states : List State} {start : Progress}

/-- As long as nothing stores into the field of an object, the field stays what it is. -/
theorem Passes.has (passes : p.Passes start states progress) (library : p.Spares field)
    (spares : start.Spares field) (has : start.heap.Has field o content)
    (quiet : ∀ s ∈ states, ∀ v, s.stores? field ≠ some (o, v)) :
    progress.Spares field ∧ progress.heap.Has field o content ∧
      ∀ s ∈ states, s.memory.heap.Has field o content := by
  induction passes with
  | start => exact ⟨spares, has, fun s impossible => by cases impossible⟩
  | @step states s _ ih =>
    obtain ⟨quiet, last⟩ := List.forall_mem_append.1 quiet
    obtain ⟨spares, has, all⟩ := ih quiet
    obtain ⟨spares', keeps⟩ := step_spares library spares
    refine ⟨spares', keeps o content (last s (List.mem_singleton_self s)) has, ?_⟩
    exact List.forall_mem_append.2 ⟨all, List.forall_mem_singleton.2 has⟩

theorem Passes.spares (passes : p.Passes start states progress) (library : p.Spares field)
    (spares : start.Spares field) : progress.Spares field := by
  induction passes with
  | start => exact spares
  | step _ ih => exact (step_spares library ih).1

end Program

end ReleaseWeaver.Machine
