import ReleaseWeaver.Proofs.Tracking.Transparent
import ReleaseWeaver.Sample.Reference
import ReleaseWeaver.Proofs.Weave.Rewriting

/-
  A body with the registration after its handle calls runs in step with the body without it. Told of
  the trails of the two activations, with their logs, and of the ends that the machine comes to with
  them; then of a program with the native code of the reactive library, whose helper and sources do
  what is taken for granted. A branch to an instruction that the body does not have makes the
  difference: the number that it names may be one that the registration hands out.
  Main statement: `Machine.register_in_step`.
-/

namespace ReleaseWeaver

namespace Machine

/-- The activations are at the same line, with the same stack, locals and arguments. -/
structure Frame.Beside (g g' : Frame) : Prop where
  line : g'.body.lines[g'.position]? = g.body.lines[g.position]?
  stack : g'.stack = g.stack
  locals : g'.locals = g.locals
  args : g'.args = g.args

/-- Two activations proceed in step from one heap: wherever the first comes, the second comes, and
the other way around at every line of the first body and at the end; then they are at the same
line, with the same stack, locals and arguments, on heaps that differ at most in the entries of a
container. What the second has asked for is what the first has asked for, and what goes with that.
Both end with the same result or failure, if they end. -/
structure Program.InStep (p : Program) (f f' : Frame) (h : Heap) (n : Nat)
    (logged : List Exchange → List Exchange) : Prop where
  forth {log g h₁} : p.Trail f h log g h₁ →
    ∃ g' h₁', p.Trail f' h (logged log) g' h₁' ∧ g.Beside g' ∧ h₁.Alike n h₁'
  back {log' g' h₁'} : p.Trail f' h log' g' h₁' →
    (∀ l, g'.body.lines[g'.position]? = some l → l.1 ∈ f.body.handles) →
    ∃ log g h₁, log' = logged log ∧ p.Trail f h log g h₁ ∧ g.Beside g' ∧ h₁.Alike n h₁'
  ends_forth {log outcome h₁} : p.FullTrail f h log outcome h₁ →
    ∃ h₁', p.FullTrail f' h (logged log) outcome h₁' ∧ h₁.Alike n h₁'
  ends_back {log' outcome h₁'} : p.FullTrail f' h log' outcome h₁' →
    ∃ log h₁, log' = logged log ∧ p.FullTrail f h log outcome h₁ ∧ h₁.Alike n h₁'
  outcome (outcome : Outcome) : (∃ h₁, p.Comes (.running ⟨⟨h, 0⟩, .frame f, []⟩) h₁ outcome) ↔
    ∃ h₁', p.Comes (.running ⟨⟨h, 0⟩, .frame f', []⟩) h₁' outcome

/-- An activation of a body with runs after its matches starts where one without them does. -/
theorem Frame.start_of_spreads {b w : Body} {site : Instr → Bool} {run : List Instr}
    {pos : Nat → Nat} (spreads : b.Spreads w site run pos) (key : MethodKey) (d : MethodDef)
    (args : List Value) : Frame.start key d w args = (Frame.start key d b args).moved w pos := by
  rw [moved, start, spreads.locals]
  show _ = ({ start key d b args with body := w, position := pos 0 } : Frame)
  rw [spreads.first]
  rfl

namespace Program

variable {p : Program} {f g : Frame} {h h₁ h₁' : Heap} {w : Body} {site : Instr → Bool}
  {pos : Nat → Nat} {field : FieldRef} {helper : MethodRef} {o n : Nat} {accepts : Bool → Prop}
  {log log' last : List Exchange} {outcome : Outcome}

/-- What ends an activation is not registered. -/
theorem Stops.withRegistrations_eq (stops : p.Stops g h last outcome h₁) (site : Instr → Bool)
    (helper : MethodRef) (n : Nat) : withRegistrations site helper n last = last := by
  cases stops with
  | fell | failed | left => rfl
  | @refused _ _ request => cases request <;> rfl

section Registers

variable (registers : p.Registers f h w site pos field helper o n accepts)

include registers

theorem Registers.beside (trail : p.Trail f h log g h₁) : g.Beside (g.moved w pos) := by
  refine ⟨?_, rfl, rfl, rfl⟩
  rw [(registers.invariant trail).1.body]
  exact registers.spreads.line g.position

/-- The full trails of the original are those of the other body. -/
theorem Registers.full_forth (full : p.FullTrail f h log outcome h₁) :
    ∃ h₁', p.FullTrail (f.moved w pos) h (withRegistrations site helper n log) outcome h₁' ∧
      h₁.Alike n h₁' := by
  obtain ⟨before, last, g, h₂, trail, stops, rfl⟩ := full
  obtain ⟨h₂', trail', alike⟩ := registers.trail_forth trail
  obtain ⟨h₁', stops', alike'⟩ := registers.stops_forth trail alike stops
  rw [withRegistrations_append, stops.withRegistrations_eq]
  exact ⟨h₁', trail'.full stops', alike'⟩

theorem Registers.full_back (full : p.FullTrail (f.moved w pos) h log' outcome h₁') :
    ∃ log h₁, log' = withRegistrations site helper n log ∧ p.FullTrail f h log outcome h₁ ∧
      h₁.Alike n h₁' := by
  obtain ⟨before, last, g', h₂', trail', stops', rfl⟩ := full
  cases registers.along trail' with
  | @aligned log g h₂ _ trail alike =>
    obtain ⟨h₁, stops, alike'⟩ := registers.stops_back trail alike stops'
    refine ⟨log ++ last, h₁, ?_, trail.full stops, alike'⟩
    rw [withRegistrations_append, stops.withRegistrations_eq]
  | inside trail alike past stage =>
    obtain ⟨_, _, _, acts⟩ :=
      registers.acts_midway past (alike.keeps (registers.invariant trail).2) stage
    exact absurd stops' acts.not_stops

/-- At a line of the original, or at the end, the other body is not in a run. -/
theorem Registers.back {g' : Frame} (trail' : p.Trail (f.moved w pos) h log' g' h₁')
    (original : ∀ l, g'.body.lines[g'.position]? = some l → l.1 ∈ f.body.handles) :
    ∃ log g h₁, log' = withRegistrations site helper n log ∧ p.Trail f h log g h₁ ∧
      g.Beside g' ∧ h₁.Alike n h₁' := by
  cases registers.along trail' with
  | aligned trail alike => exact ⟨_, _, _, rfl, trail, registers.beside trail, alike⟩
  | inside trail alike past stage =>
    obtain ⟨l, line, matched⟩ := past.line
    have inside : _ < (registration field helper).length := stage.lt
    obtain ⟨t, new, there⟩ := registers.spreads.inserted line matched inside
    exact absurd (original _ there) new

theorem Registers.inStep :
    p.InStep f (f.moved w pos) h n (withRegistrations site helper n) where
  forth trail := by
    obtain ⟨h₁', trail', alike⟩ := registers.trail_forth trail
    exact ⟨_, h₁', trail', registers.beside trail, alike⟩
  back := registers.back
  ends_forth := registers.full_forth
  ends_back := registers.full_back
  outcome outcome := by
    constructor
    · rintro ⟨h₁, comes⟩
      obtain ⟨log, full⟩ := comes_iff_fullTrail.1 comes
      obtain ⟨h₁', full', _⟩ := registers.full_forth full
      exact ⟨h₁', comes_iff_fullTrail.2 ⟨_, full'⟩⟩
    · rintro ⟨h₁', comes⟩
      obtain ⟨log', full'⟩ := comes_iff_fullTrail.1 comes
      obtain ⟨log, h₁, _, full, _⟩ := registers.full_back full'
      exact ⟨h₁, comes_iff_fullTrail.2 ⟨_, full⟩⟩

end Registers

end Program

/-! ## Native code -/

namespace Reactive

/-- Native code that looks at no object: it ends at once and leaves the heap, or makes an object. -/
def Blind (code : NativeCode) : Prop :=
  ∀ args, (∃ outcome, ∀ h, code h args = (h, .done outcome)) ∨
    ∃ object, ∀ h, code h args = ((h.alloc object).1, .done (.ok (some (h.alloc object).2)))

theorem blind_never : Blind never := fun _ => .inr ⟨_, fun _ => rfl⟩

theorem blind_subscribe : Blind subscribe := by
  intro args
  match args with
  | [] | .null :: _ => exact .inl ⟨_, fun _ => rfl⟩
  | .int _ :: _ | .str _ :: _ | .object _ :: _ => exact .inr ⟨_, fun _ => rfl⟩

theorem trackWith_unreleased {h : Heap} {n : Nat} {entries : List Value}
    (holds : h.Holds n entries false) (v : Value) : trackWith h [v, .object n] =
      (h.modify (setNative (.container (entries ++ [v]) false)) n, .done (.ok (some v))) := by
  obtain ⟨object, there, native⟩ := holds
  show attempt h (add h (.object n) v (some v)) = _
  rw [add, Heap.object_eq_ok.2 ⟨rfl, there⟩]
  simp only [bind, Except.bind, native]
  rfl

end Reactive

namespace Program

variable {p : Program} {c : Call} {code : NativeCode} {h h' : Heap} {outcome : Outcome}

/-- A call of native code that ends at once. -/
theorem yields_native (static : c.isVirtual = false)
    (known : p.natives (nativeName c.method.declaring.definitionName c.method.name) = some code)
    (done : code h c.args = (h', .done outcome)) : p.Yields h (.invoke c) h' outcome := by
  have starts :
      p.perform ⟨h, 0⟩ [] (.invoke c) = .running ⟨⟨h', 0⟩, .native (.done outcome), []⟩ := by
    show p.invoke ⟨h, 0⟩ [] c = _
    rw [invoke_native (startClass_static static) known, runNative, done]
  have passes : (p.within 0).Passes (.running ⟨⟨h', 0⟩, .native (.done outcome), []⟩) [_] _ :=
    Passes.start.step
  rw [Yields, starts]
  cases outcome <;> exact ⟨_, 0, passes⟩

/-- The helper of the library, as long as the container is not released. -/
theorem helps_trackWith (library : p.natives = Reactive.natives) (n : Nat) :
    p.Helps Sample.trackWith n (· = false) where
  arity := rfl
  returns := rfl
  yields := by
    rintro h entries _ holds rfl v
    refine ⟨_, yields_native rfl ?_ (Reactive.trackWith_unreleased holds v),
      Heap.alike_setEntries holds _⟩
    rw [library]
    rfl

/-- The request looks at no object: it leaves the heap, or makes an object. -/
def Overlooks (p : Program) (request : Request) : Prop :=
  (∃ outcome, ∀ h h' outcome', p.Yields h request h' outcome' ↔ h' = h ∧ outcome' = outcome) ∨
    ∃ object, ∀ h h' outcome', p.Yields h request h' outcome' ↔
      h' = (h.alloc object).1 ∧ outcome' = .ok (some (h.alloc object).2)

theorem overlooks_native (static : c.isVirtual = false)
    (known : p.natives (nativeName c.method.declaring.definitionName c.method.name) = some code)
    (blind : Reactive.Blind code) : p.Overlooks (.invoke c) := by
  have only {h h₁ h' : Heap} {outcome outcome' : Outcome}
      (done : code h c.args = (h₁, .done outcome)) :
      p.Yields h (.invoke c) h' outcome' ↔ h' = h₁ ∧ outcome' = outcome := by
    have yields := yields_native static known done
    constructor
    · intro yields'
      obtain ⟨rfl, rfl⟩ := yields.unique yields'
      exact ⟨rfl, rfl⟩
    · rintro ⟨rfl, rfl⟩
      exact yields
  obtain ⟨outcome, leaves⟩ | ⟨object, makes⟩ := blind c.args
  · exact .inl ⟨outcome, fun h _ _ => only (leaves h)⟩
  · exact .inr ⟨object, fun h _ _ => only (makes h)⟩

section Overlooks

variable {request : Request} {h₁ h₂ : Heap} {field : String} {o n : Nat} {accepts : Bool → Prop}
  (overlooks : p.Overlooks request)

include overlooks

theorem Overlooks.keeps (keeps : h.Keeps field o n accepts)
    (yields : p.Yields h request h' outcome) :
    h'.Keeps field o n accepts := by
  obtain ⟨_, leaves⟩ | ⟨object, makes⟩ := overlooks
  · obtain ⟨rfl, -⟩ := (leaves _ _ _).1 yields
    exact keeps
  · obtain ⟨rfl, -⟩ := (makes _ _ _).1 yields
    obtain ⟨has, entries, released, holds, accepted⟩ := keeps
    exact ⟨Heap.spares_alloc _ _ _ _ _ has, entries, released, Heap.holds_alloc holds, accepted⟩

theorem Overlooks.alike (alike : h₁.Alike n h₂) (yields : p.Yields h₁ request h' outcome) :
    ∃ h'', p.Yields h₂ request h'' outcome ∧ h'.Alike n h'' := by
  obtain ⟨_, leaves⟩ | ⟨object, makes⟩ := overlooks
  · obtain ⟨rfl, rfl⟩ := (leaves _ _ _).1 yields
    exact ⟨_, (leaves _ _ _).2 ⟨rfl, rfl⟩, alike⟩
  · obtain ⟨rfl, rfl⟩ := (makes _ _ _).1 yields
    obtain ⟨made, alike'⟩ := alike.alloc object
    exact ⟨_, (makes _ _ _).2 ⟨rfl, by rw [made]⟩, alike'⟩

end Overlooks

/-- The instruction does not store into the field, makes no object, and calls only native code that
looks at no object. -/
def StaysClear (p : Program) (field : String) : Instr → Prop
  | .stfld fld => fld.name ≠ field
  | .newobj _ => False
  | .invoke method isVirtual => isVirtual = false ∧
      ∃ code, p.natives (nativeName method.declaring.definitionName method.name) = some code ∧
        Reactive.Blind code
  | _ => True

/-- An activation of such instructions ignores every container in the field. -/
theorem ignores_of_clear {b : Body} {key : MethodKey} {d : MethodDef} {args : List Value}
    {field : String} {o n : Nat} (clear : ∀ i ∈ b.instrs, p.StaysClear field i)
    (accepts : Bool → Prop) : p.Ignores (Frame.start key d b args) h field o n accepts := by
  have inside {log : List Exchange} {g : Frame} {h₁ : Heap} {i : Instr}
      (trail : p.Trail (Frame.start key d b args) h log g h₁) (here : g.current? = some i) :
      p.StaysClear field i := by
    rw [Frame.current?_eq, trail.continues.body] at here
    exact clear i (List.mem_of_getElem? here)
  have overlooks {log : List Exchange} {g g' : Frame} {h₁ : Heap} {takes : Bool} {request : Request}
      (trail : p.Trail (Frame.start key d b args) h log g h₁)
      (asks : g.AsksFor h₁ g' takes request) : p.Overlooks request := by
    obtain ⟨effect, next, asks⟩ := asks
    obtain ⟨i, here, run⟩ := Frame.effect?_eq_some.1 next
    obtain ⟨-, -, ⟨c, rfl, rfl, -⟩ | ⟨⟨className, args, rfl⟩, -⟩⟩ := asks.past run
    · obtain ⟨static, code, known, blind⟩ := inside trail here
      exact overlooks_native static known blind
    · cases asks
      cases Frame.executes_of_exec run
      exact (inside trail here).elim
  refine ⟨fun {log g h₁ v} trail stores => ?_, fun trail asks => (overlooks trail asks).keeps,
    fun trail asks alike alike' => (overlooks trail asks).alike (alike.symm.trans alike')⟩
  unfold Frame.stores? at stores
  split at stores
  · next fld content k rest here stack =>
    split at stores
    · next named => exact absurd named (inside trail here)
    · cases stores
  · cases stores

/-- The run ends within so many steps, with this outcome and below the limit. -/
def endsWith (p : Program) (count : Nat) (start : Progress) (outcome : Outcome) : Bool :=
  match p.runFor count start with
  | .finished m outcome' => m.steps ≤ p.stepLimit ∧ outcome' = outcome
  | .running _ => false

theorem comes_of_endsWith (count : Nat) {start : Progress}
    (ends : p.endsWith count start outcome = true) : ∃ h, p.Comes start h outcome := by
  unfold endsWith at ends
  split at ends
  · next m outcome' last =>
    obtain ⟨inside, rfl⟩ := of_decide_eq_true ends
    have passes := p.passes_trace count start
    rw [last] at passes
    exact ⟨m.heap, _, m.steps, passes.limited m.steps inside (Nat.le_refl _)⟩
  · cases ends

end Program

/-! ## Registration -/

/-- Registration is transparent: from any start in which the field of argument 0 holds a container,
a body and the body with its handle calls registered proceed in step, and each handle call that has
come to a value is followed by one call of the helper on that value and the container. -/
theorem register_in_step {p : Program} {b : Body} {field : FieldRef} {helper : MethodRef}
    {contract : TypeRef} {fragment : String} {key : MethodKey} {d : MethodDef} {args : List Value}
    {h : Heap} {o n : Nat} {accepts : Bool → Prop} (helps : p.Helps helper n accepts)
    (apart : ∀ l ∈ b.lines, ∀ t, l.2.target? = some t →
      t ∈ (b.register field helper (b.handleCalls contract fragment)).1.handles → t ∈ b.handles)
    (this : args[0]? = some (.object o)) (keeps : h.Keeps field.name o n accepts)
    (ignores : p.Ignores (Frame.start key d b args) h field.name o n accepts) :
    (b.register field helper (b.handleCalls contract fragment)).2 =
        .ok (b.handleCalls contract fragment).length ∧
      p.InStep (Frame.start key d b args)
        (Frame.start key d (b.register field helper (b.handleCalls contract fragment)).1 args) h n
        (withRegistrations (Instr.isHandleCall contract fragment) helper n) := by
  rw [Body.register_eq] at apart ⊢
  have spreads := b.spreads_insertAfterEach (Instr.isHandleCall contract fragment)
    (registration field helper)
  refine ⟨rfl, ?_⟩
  have registers : p.Registers (Frame.start key d b args) h _ _ _ field helper o n accepts :=
    { spreads, apart := fun line leads listed => apart _ line _ leads listed,
      calls := fun matched => ?_, this, helps, ignores, keeps }
  · have start := Frame.start_of_spreads spreads key d args
    exact start ▸ registers.inStep
  · obtain ⟨method, isVirtual, rfl, returns, _⟩ := Instr.isHandleCall_iff.1 matched
    refine ⟨method, isVirtual, rfl, ?_⟩
    cases value : method.returns with
    | none => rw [value] at returns; cases returns
    | some => rfl

end Machine

/-! ## A body that listens, and one that goes astray -/

namespace Sample

open Machine

def tracker : FieldRef := { declaring := model "Keeper", name := "Tracker", type := container }

/-- An object whose field holds a container that is not released. -/
def tracking : Heap where
  objects := #[{ className := "Sweep.Tests.Models.Keeper", fields := [("Tracker", .object 2)] },
    { className := "System.Reactive.Disposables.CompositeDisposable",
      native := .container [] false }]

theorem keeps_tracking : tracking.Keeps tracker.name 1 2 (· = false) :=
  ⟨⟨_, rfl, rfl⟩, [], false, ⟨_, rfl, rfl⟩, rfl⟩

def library : Program := { module := default, natives := Reactive.natives, stepLimit := 20 }

def listening : Body := .ofInstrs [.call never, .call subscribe, .pop, .ret]

/-- The second instruction branches to one that the body does not have. -/
def dangling : Body :=
  .ofInstrs [.ldnull, .branch .always (.nth 6), .call never, .call subscribe, .ret]

/-- The body with its subscriptions registered. -/
def trackedBody (b : Body) : Body :=
  (b.register tracker trackWith (b.handleCalls disposable "Subscribe")).1

/-- The activation of a body on the object. -/
def activation (b : Body) : Frame := Frame.start default { name := "Listen" } b [.object 1]

theorem clear_listening : ∀ i ∈ listening.instrs, library.StaysClear tracker.name i := by
  show ∀ i ∈ [Instr.call never, .call subscribe, .pop, .ret], library.StaysClear tracker.name i
  simp only [List.forall_mem_cons]
  exact ⟨⟨rfl, _, rfl, Reactive.blind_never⟩, ⟨rfl, _, rfl, Reactive.blind_subscribe⟩, trivial,
    trivial, List.forall_mem_nil _⟩

theorem clear_dangling : ∀ i ∈ dangling.instrs, library.StaysClear tracker.name i := by
  show ∀ i ∈ [Instr.ldnull, .branch .always (.nth 6), .call never, .call subscribe, .ret],
    library.StaysClear tracker.name i
  simp only [List.forall_mem_cons]
  exact ⟨trivial, trivial, ⟨rfl, _, rfl, Reactive.blind_never⟩,
    ⟨rfl, _, rfl, Reactive.blind_subscribe⟩, trivial, List.forall_mem_nil _⟩

end Sample

open Sample in
/-- The subscription of a body that listens is registered, and nothing else changes. -/
theorem Machine.register_in_step_listening :
    listening.handleCalls disposable "Subscribe" = [.nth 2] ∧
      library.InStep (activation listening) (activation (trackedBody listening)) tracking 2
        (withRegistrations (Instr.isHandleCall disposable "Subscribe") trackWith 2) := by
  have straight : ∀ l ∈ listening.lines, l.2.target? = none := by decide
  refine ⟨by decide +kernel, ?_⟩
  refine (register_in_step (library.helps_trackWith rfl 2) (fun l listed t leads => ?_) rfl
    keeps_tracking (Program.ignores_of_clear clear_listening _)).2
  rw [straight l listed] at leads
  cases leads

open Sample in
/-- A branch to an instruction that the body does not have fails; in the body with the
registrations it leads into one of them, and the body returns. -/
theorem Machine.register_not_in_step :
    library.Helps trackWith 2 (· = false) ∧ (activation dangling).args[0]? = some (.object 1) ∧
      tracking.Keeps tracker.name 1 2 (· = false) ∧
      library.Ignores (activation dangling) tracking tracker.name 1 2 (· = false) ∧
      ¬library.InStep (activation dangling) (activation (trackedBody dangling)) tracking 2
        (withRegistrations (Instr.isHandleCall disposable "Subscribe") trackWith 2) := by
  refine ⟨library.helps_trackWith rfl 2, rfl, keeps_tracking,
    Program.ignores_of_clear clear_dangling _, fun inStep => ?_⟩
  have fails : ∃ h, library.Comes (.running ⟨⟨tracking, 0⟩, .frame (activation dangling), []⟩) h
      (.error .badBranch) :=
    Program.comes_of_endsWith 20 (by decide +kernel)
  have returns : ∃ h, library.Comes
      (.running ⟨⟨tracking, 0⟩, .frame (activation (trackedBody dangling)), []⟩) h
      (.ok none) :=
    Program.comes_of_endsWith 20 (by decide +kernel)
  obtain ⟨_, fails'⟩ := (inStep.outcome (.error .badBranch)).1 fails
  obtain ⟨_, returns⟩ := returns
  cases (returns.unique fails').2

end ReleaseWeaver
