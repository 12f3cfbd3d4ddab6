import ReleaseWeaver.Proofs.Tracking.Storing

/-
  Failures that nobody catches. Bodies and constructors end with a failure of a call that they
  make, and the native code of the reactive library passes it on. So a run with a failure on its
  way ends with one: in a run that succeeds, no state has a failure on its way.
-/

namespace ReleaseWeaver.Machine

/-- Native code that waits fails if what it waits for does. -/
def Caller.Relays : Caller → Prop
  | .native next => (∀ h e, ∃ e', (next h (.error e)).2 = .done (.error e')) ∧
      ∀ h outcome, (next h outcome).2.Relays
  | _ => True

def Active.Relays : Active → Prop
  | .native work => work.Relays
  | _ => True

/-- The native code at work and the native code that waits pass failures on. -/
def State.Relays (s : State) : Prop := s.active.Relays ∧ ∀ c ∈ s.callers, c.Relays

namespace Progress

def Relays : Progress → Prop
  | .running s => s.Relays
  | .finished _ _ => True

/-- No failure is on its way, and none has come to the end. -/
def isAlive : Progress → Bool
  | .running s => s.isAlive
  | .finished _ outcome => outcome.isOk

end Progress

namespace Program

variable {p : Program} {s : State} {m : Memory} {callers : List Caller} {progress start : Progress}

theorem Enters.relays (enters : p.Enters m callers progress) (relays : p.Relays)
    (waiting : ∀ c ∈ callers, c.Relays) : progress.Relays := by
  have above {m' : Memory} {callers' : List Caller} (prepared : Prepares m callers m' callers') :
      ∀ c ∈ callers', c.Relays := by
    cases prepared with
    | called => exact waiting
    | made className => exact List.forall_mem_cons.2 ⟨trivial, waiting⟩
  cases enters with
  | body args prepared _ => exact ⟨trivial, above prepared⟩
  | native args prepared known => exact ⟨relays _ _ known _ args, above prepared⟩
  | failed e prepared => exact ⟨trivial, waiting⟩

theorem relays_deliver (waiting : ∀ c ∈ callers, c.Relays) (outcome : Outcome) :
    (deliver m callers outcome).Relays := by
  cases callers with
  | nil => cases outcome <;> trivial
  | cons caller callers =>
    obtain ⟨first, rest⟩ := List.forall_mem_cons.1 waiting
    cases caller with
    | native next => cases outcome <;> exact ⟨first.2 m.heap _, rest⟩
    | frame f takes => cases outcome <;> exact ⟨trivial, rest⟩
    | constructing this =>
      cases outcome with
      | ok result => exact ⟨.done _, rest⟩
      | error e => exact ⟨trivial, rest⟩

theorem step_relays (relays : p.Relays) (orderly : s.Relays) : (p.step s).Relays := by
  obtain ⟨active, waiting⟩ := orderly
  have step := p.steps s
  generalize p.step s = progress at step ⊢
  cases step with
  | moved | stuck => exact ⟨trivial, waiting⟩
  | @asked _ m caller request asks =>
    have caller' : caller.Relays := by
      cases asks with
      | construct | invoke => trivial
      | native =>
        cases active with
        | ask _ fails goesOn => exact ⟨fails, goesOn⟩
    exact (p.enters_perform m _ request).relays relays (List.forall_mem_cons.2 ⟨caller', waiting⟩)
  | ended ends => exact relays_deliver waiting _

/-- A failure is passed on. -/
theorem not_isAlive_unwind (waiting : ∀ c ∈ callers, c.Relays) (e : ExecError) :
    (unwind m e callers).isAlive = false := by
  cases callers with
  | nil => rfl
  | cons caller callers =>
    cases caller with
    | native next =>
      obtain ⟨e', raises⟩ := (waiting _ List.mem_cons_self).1 m.heap e
      show (runNative m callers (next m.heap (.error e))).isAlive = false
      rw [runNative, raises]
      rfl
    | frame | constructing => rfl

theorem isAlive_of_step (orderly : s.Relays) (alive : (p.step s).isAlive = true) :
    s.isAlive = true := by
  obtain ⟨memory, active, callers⟩ := s
  by_contra failing
  have unwinds : ∃ e, p.step ⟨memory, active, callers⟩ = unwind memory e callers := by
    cases active with
    | frame f => exact absurd rfl failing
    | failure e => exact ⟨e, rfl⟩
    | native work =>
      cases work with
      | ask => exact absurd rfl failing
      | done outcome =>
        cases outcome with
        | ok result => exact absurd rfl failing
        | error e => exact ⟨e, rfl⟩
  obtain ⟨e, unwinds⟩ := unwinds
  rw [unwinds, not_isAlive_unwind orderly.2] at alive
  cases alive

theorem Passes.isAlive {states : List State} (passes : p.Passes start states progress)
    (relays : p.Relays) (orderly : start.Relays) :
    progress.Relays ∧ (progress.isAlive = true → ∀ s ∈ states, s.isAlive = true) := by
  induction passes with
  | start => exact ⟨orderly, fun _ _ impossible => by cases impossible⟩
  | @step states s _ ih =>
    obtain ⟨orderly, before⟩ := ih
    refine ⟨step_relays relays orderly, fun alive => ?_⟩
    have last := isAlive_of_step orderly alive
    exact List.forall_mem_append.2 ⟨before last, List.forall_mem_singleton.2 last⟩

/-- Every state of a request that succeeds is without a failure. -/
theorem Passes.isAlive_of_finished {states : List State} {request : Request} {memory : Memory}
    {result : Option Value}
    (passes : p.Passes (p.perform memory [] request) states (.finished m (.ok result)))
    (relays : p.Relays) : ∀ s ∈ states, s.isAlive = true :=
  (passes.isAlive relays ((p.enters_perform memory [] request).relays relays (by simp))).2 rfl

end Program

end ReleaseWeaver.Machine
