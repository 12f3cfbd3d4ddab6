import ReleaseWeaver.Proofs.Tracking.Steps

/-
  Runs of a staged program. Whatever a host asks for with values that are in no tracking field,
  the account is kept from request to request and from step to step. So the container of an
  object holds what the handle calls have produced, and after a teardown it is released with all
  its subscriptions.
-/

namespace ReleaseWeaver.Machine

open Program Reactive

variable {p : Program} {w : Watch} {role : MethodKey → Handle → Role} {events : List Event}
  {situation : Situation} {admissible : Heap → Request → Prop} {h : Heap} {o : Nat} {v : Value}

theorem isFree_of_isOutside (outside : h.isOutside w.field v = true) :
    h.IsFree w.field none v := by
  intro n same
  subst same
  obtain ⟨there, apart⟩ := Bool.and_eq_true_iff.1 outside
  refine ⟨Option.isSome_iff_exists.1 there, by simp, ?_⟩
  rintro o ⟨object, found, tracks⟩
  cases o with
  | zero => cases found
  | succ o =>
    obtain ⟨inside, eq⟩ := Array.getElem?_eq_some_iff.1 found
    have other := Array.all_eq_true.1 apart o inside
    rw [eq, tracks, bne_self_eq_false] at other
    cases other

/-- What holds between two requests, and in the course of one. -/
def Situation.Keeps (m : Module) (w : Watch) (role : MethodKey → Handle → Role)
    (events : List Event) : Situation → Prop
  | idle memory => Account w (fun _ => True) events memory.heap none calm []
  | busy s => ∃ flight inflight owed,
      Flow m w role events s.memory.heap s.active s.callers flight inflight owed ∧
        Account w (fun _ => True) events s.memory.heap flight inflight owed

section Runs

variable (staging : Staging p.module w role) (library : p.natives = Reactive.natives)
  (dispatches : p.Dispatches)
  (outside : ∀ h request, admissible h request → ∀ v ∈ request.values, h.isOutside w.field v = true)
  (run : p.Runs w admissible events situation)

include staging library dispatches outside run

/-- A run keeps the account. -/
theorem Program.Runs.keeps : situation.Keeps p.module w role events := by
  induction run with
  | start => exact account_empty w _
  | @request events memory request s _ admitted started alive account =>
    have kept := perform_keeps staging library account (.nil : Waits p.module w role events
      memory.heap none [] []) fun v listed => isFree_of_isOutside (outside _ _ admitted v listed)
    rw [started] at kept
    exact kept alive
  | step _ next alive kept =>
    obtain ⟨flight, inflight, owed, flow, account⟩ := kept
    have kept := step_keeps staging library dispatches flow account
    rw [next] at kept
    exact kept alive
  | finish _ next kept =>
    obtain ⟨flight, inflight, owed, flow, account⟩ := kept
    have kept := step_keeps staging library dispatches flow account
    rw [next] at kept
    exact kept

/-- Outside of a registration nothing is on its way into a container. -/
theorem Program.Runs.settled (settled : situation.isRegistering w o = false) :
    ∃ flight inflight owed, inflight o = [] ∧
      Account w (fun _ => True) events situation.heap flight inflight owed := by
  have kept := run.keeps staging library dispatches outside
  cases situation with
  | idle memory => exact ⟨none, calm, [], rfl, kept⟩
  | busy s =>
    obtain ⟨flight, inflight, owed, flow, account⟩ := kept
    refine ⟨flight, inflight, owed, ?_, account⟩
    obtain ⟨memory, active, callers⟩ := s
    dsimp only at flow
    -- A body that registers a value does so for the object that it runs on.
    have registers {f : Frame} {v : Value} (known : ∃ d, HasBody p.module f.key d f.body)
        (part : f.part role = .registerThis ∨ f.part role = .registerLoad ∨
          f.part role = .registerCall)
        (settled : (f.receiver? == some o && f.isRegistering w) = false) :
        onto f.receiver? v o = [] := by
      rw [Frame.isRegistering_of_part staging known part, Bool.and_true, beq_eq_false_iff_ne]
        at settled
      cases receiver : f.receiver? with
      | none => rfl
      | some o' => exact if_neg fun same => settled (receiver.trans (congrArg some same))
    cases flow with
    | registerThis sound _ _ part _ => exact registers sound.known (.inl part) settled
    | registerLoad sound _ _ _ part _ => exact registers sound.known (.inr (.inl part)) settled
    | @registerCall f o' object v rest callers _ sound receiver _ _ _ part _ =>
      have none := registers (v := v) sound.known (.inr (.inr part)) settled
      rw [receiver] at none
      exact none
    | _ => rfl

/-- The container of an object holds what the handle calls on the object have produced. -/
theorem Program.Runs.entries (once : events.count (.prologue o) = 1)
    (settled : situation.isRegistering w o = false) : ∃ released,
      situation.heap.tracking? w.field o = some (producedOn o events, released) := by
  obtain ⟨flight, inflight, owed, nothing, account⟩ :=
    run.settled staging library dispatches outside settled
  have listed : .prologue o ∈ events := List.count_pos_iff.1 (once ▸ Nat.one_pos)
  obtain ⟨n, entries, released, tracks, holds, same⟩ := account.ledger o listed
  rw [nothing, List.append_nil] at same
  exact ⟨released, same ▸ Heap.tracking?_eq_some.2 ⟨n, tracks, holds⟩⟩

end Runs

/-- After a teardown the container is released, and so are all subscriptions in it. -/
theorem Program.Runs.released (staging : Staging p.module w role)
    (library : p.natives = Reactive.natives) (dispatches : p.Dispatches)
    (outside : ∀ h request, admissible h request →
      ∀ v ∈ request.values, h.isOutside w.field v = true) {memory : Memory}
    (run : p.Runs w admissible events (.idle memory)) (once : events.count (.prologue o) = 1)
    (left : .left o ∈ events) : ∃ entries,
      memory.heap.tracking? w.field o = some (entries, true) ∧
        ∀ v ∈ entries, memory.heap.isOpen v = false := by
  have account : Account w (fun _ => True) events memory.heap none calm [] :=
    run.keeps staging library dispatches outside
  obtain ⟨_, finished⟩ := account.finished o left
  obtain ⟨n, entries, tracks, holds⟩ := finished once
  refine ⟨entries, Heap.tracking?_eq_some.2 ⟨n, tracks, holds⟩, fun v listed => ?_⟩
  exact Heap.isOpen_of_isQuiet
    ((account.debts n entries holds trivial v listed).resolve_right List.not_mem_nil)

/-- In every run, the container of an object whose prologue ran once holds what the handle calls
on the object have produced, and after its teardown was left it is released with all its
subscriptions. -/
structure Program.KeepsHandles (p : Program) (w : Watch) (admissible : Heap → Request → Prop) :
    Prop where
  entries : ∀ {events situation o}, p.Runs w admissible events situation →
    events.count (.prologue o) = 1 → situation.isRegistering w o = false → ∃ released,
      situation.heap.tracking? w.field o = some (producedOn o events, released)
  released : ∀ {events memory o}, p.Runs w admissible events (.idle memory) →
    events.count (.prologue o) = 1 → .left o ∈ events →
      memory.heap.tracking? w.field o = some (producedOn o events, true) ∧
        ∀ v ∈ producedOn o events, memory.heap.isOpen v = false

theorem Program.keepsHandles_of_staging (staging : Staging p.module w role)
    (library : p.natives = Reactive.natives) (dispatches : p.Dispatches)
    (outside : ∀ h request, admissible h request →
      ∀ v ∈ request.values, h.isOutside w.field v = true) : p.KeepsHandles w admissible where
  entries run once settled := run.entries staging library dispatches outside once settled
  released run once left := by
    obtain ⟨entries, tracked, closed⟩ := run.released staging library dispatches outside once left
    obtain ⟨released, held⟩ := run.entries staging library dispatches outside once rfl
    cases tracked.symm.trans held
    exact ⟨tracked, closed⟩

end ReleaseWeaver.Machine
