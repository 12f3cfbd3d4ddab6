import ReleaseWeaver.Proofs.Tracking.Natives
import ReleaseWeaver.Proofs.Tracking.Staging

/-
  Where a run of staged bodies can be. An activation rests at an instruction that may be reached
  from anywhere, or it is in the middle of a prologue, a registration or a release with the values
  of that run on its stack; native code releases values one by one. Whatever waits for the end of
  a call holds free values only.
-/

namespace ReleaseWeaver.Machine

open Program Reactive

/-- The bodies of a module are staged, a teardown comes to its final exit released, and nothing
but the teardown releases. -/
structure Staging (m : Module) (w : Watch) (role : MethodKey → Handle → Role) : Prop where
  staged : ∀ {key d b}, HasBody m key d b →
    b.Staged w.field (fun h => (key, h) ∈ w.sites) (role key)
  exit : ∀ {d b exit}, HasBody m w.teardown d b → b.finalExit? = some exit →
    role w.teardown exit = .released
  clear : ∀ key, key ≠ w.teardown → ∀ h, role key h ≠ .released

namespace Frame

variable {m : Module} {w : Watch} {role : MethodKey → Handle → Role} {f f' : Frame}

/-- The role of the instruction at a position; past the end there is none to play. -/
def partAt (role : MethodKey → Handle → Role) (f : Frame) (position : Nat) : Role :=
  ((f.body.at? position).map (role f.key)).getD .plain

def part (role : MethodKey → Handle → Role) (f : Frame) : Role := f.partAt role f.position

theorem partAt_of_line {l : Handle × Instr} {q : Nat} (line : f.body.lines[q]? = some l) :
    f.partAt role q = role f.key l.1 := by
  rw [partAt, Body.at?, Body.handles, List.getElem?_map, line]
  rfl

/-- The roles of a body with one more at its end, by position. -/
theorem partAt_eq {q : Nat} (inside : q ≤ f.body.lines.length) :
    (f.body.lines.map (fun l => role f.key l.1) ++ [.plain])[q]? = some (f.partAt role q) := by
  by_cases last : q = f.body.lines.length
  · rw [last, List.getElem?_append_right (by simp), partAt, Body.at?, Body.handles]
    simp
  · have inside' : q < f.body.lines.length := by omega
    rw [List.getElem?_append_left (by simpa using inside'), List.getElem?_map,
      List.getElem?_eq_getElem inside', partAt_of_line (List.getElem?_eq_getElem inside')]
    rfl

section Staged

variable (staging : Staging m w role) (known : ∃ d, HasBody m f.key d f.body)

include staging known

theorem plays_part {i : Instr} (here : f.current? = some i) : (f.part role).Plays w.field i := by
  obtain ⟨d, known⟩ := known
  obtain ⟨h, line⟩ := current?_eq_some.1 here
  rw [part, partAt_of_line line]
  exact (staging.staged known).plays (h, i) (List.mem_of_getElem? line)

theorem leads_partAt {q : Nat} (inside : q < f.body.lines.length) :
    (f.partAt role q).leads (f.partAt role (q + 1)) = true := by
  obtain ⟨d, known'⟩ := known
  have chain := (staging.staged known').follows
  have first : (f.body.lines.map (fun l => role f.key l.1) ++ [Role.plain])[q]? =
      some (f.partAt role q) := partAt_eq (Nat.le_of_lt inside)
  have second : (f.body.lines.map (fun l => role f.key l.1) ++ [Role.plain])[q + 1]? =
      some (f.partAt role (q + 1)) := partAt_eq inside
  obtain ⟨bound₁, eq₁⟩ := List.getElem?_eq_some_iff.1 first
  obtain ⟨bound₂, eq₂⟩ := List.getElem?_eq_some_iff.1 second
  have follows := (List.isChain_iff_getElem.1 chain) (q + 1) (by simpa using bound₂)
  simp only [List.getElem_cons_succ] at follows
  rw [eq₁, eq₂] at follows
  exact follows

theorem isOpen_partAt_zero : (f.partAt role 0).isOpen = true := by
  obtain ⟨d, known'⟩ := known
  have chain := (staging.staged known').follows
  have first : (f.body.lines.map (fun l => role f.key l.1) ++ [Role.plain])[0]? =
      some (f.partAt role 0) := partAt_eq (Nat.zero_le _)
  obtain ⟨bound, eq⟩ := List.getElem?_eq_some_iff.1 first
  have follows := (List.isChain_iff_getElem.1 chain) 0 (by simp)
  simp only [List.getElem_cons_zero, List.getElem_cons_succ] at follows
  rw [eq] at follows
  exact follows

/-- A branch leads to an open position. -/
theorem isOpen_jump {i : Instr} (here : f.current? = some i) {t : Handle}
    (target : i.target? = some t) {q : Nat} (found : f.body.position? t = some q) :
    (f.partAt role q).isOpen = true := by
  obtain ⟨d, known'⟩ := known
  obtain ⟨h, line⟩ := current?_eq_some.1 here
  obtain ⟨i', line'⟩ := Body.position?_eq_some.1 found
  rw [partAt_of_line line']
  exact (staging.staged known').jumps (h, i) (List.mem_of_getElem? line) t target

/-- What is no open role has an instruction before it that leads to it. -/
theorem before_of_closed {q : Nat} (closed : (f.partAt role q).isOpen = false) :
    ∃ q', q = q' + 1 ∧ q' < f.body.lines.length ∧
      (f.partAt role q').leads (f.partAt role q) = true := by
  cases q with
  | zero =>
    rw [isOpen_partAt_zero staging known] at closed
    cases closed
  | succ q =>
    have inside : q < f.body.lines.length := by
      by_contra beyond
      rw [partAt, Body.at?, Body.handles, List.getElem?_eq_none (by simp; omega)] at closed
      cases closed
    exact ⟨q, rfl, inside, leads_partAt staging known inside⟩

theorem isMatched_iff {q : Nat} {h : Handle} (line : f.body.at? q = some h) :
    f.partAt role q = .matched ↔ (f.key, h) ∈ w.sites := by
  obtain ⟨d, known'⟩ := known
  rw [Body.at?, Body.handles, List.getElem?_map] at line
  obtain ⟨l, line', rfl⟩ := Option.map_eq_some_iff.1 line
  rw [partAt_of_line line']
  exact (staging.staged known').sites l (List.mem_of_getElem? line')

theorem isPastSite_iff (places : Nat) {q : Nat} (position : f.position = q + places)
    (inside : q < f.body.lines.length) :
    f.isPastSite w places = true ↔ f.partAt role q = .matched := by
  obtain ⟨h, line⟩ : ∃ h, f.body.at? q = some h := by
    refine ⟨f.body.lines[q].1, ?_⟩
    rw [Body.at?, Body.handles, List.getElem?_map, List.getElem?_eq_getElem inside]
    rfl
  rw [isMatched_iff staging known line, isPastSite, position, Nat.add_sub_cancel, line]
  simp

/-- The first instruction of a registration comes right after a handle call, and only there. -/
theorem isPastSite_iff_registerThis (moved : 0 < f.position)
    (inside : f.position ≤ f.body.lines.length) :
    f.isPastSite w 1 = true ↔ f.part role = .registerThis := by
  obtain ⟨q, position⟩ := Nat.exists_eq_succ_of_ne_zero (Nat.ne_of_gt moved)
  have inside' : q < f.body.lines.length := by omega
  have leads := leads_partAt staging known inside'
  rw [isPastSite_iff staging known 1 position inside', part, position]
  constructor
  · intro matched
    rw [matched] at leads
    simpa [Role.leads] using leads
  · intro registers
    rw [registers] at leads
    revert leads
    cases f.partAt role q <;> decide

/-- Roles of a registration are played where a handle call stands right before. -/
theorem isRegistering_of_part (registers : f.part role = .registerThis ∨
    f.part role = .registerLoad ∨ f.part role = .registerCall) : f.isRegistering w = true := by
  have previous {q : Nat} {a b : Role} (here : f.partAt role q = b) (closed : b.isOpen = false)
      (only : ∀ r : Role, r.leads b = true → r = a) : ∃ q', q = q' + 1 ∧
        q' < f.body.lines.length ∧ f.partAt role q' = a := by
    obtain ⟨q', same, inside, leads⟩ := before_of_closed staging known (here ▸ closed)
    exact ⟨q', same, inside, only _ (here ▸ leads)⟩
  have fromThis {q : Nat} (here : f.partAt role q = .registerThis) : ∃ q', q = q' + 1 ∧
      q' < f.body.lines.length ∧ f.partAt role q' = .matched :=
    previous here rfl fun r => by cases r <;> decide
  have fromLoad {q : Nat} (here : f.partAt role q = .registerLoad) : ∃ q', q = q' + 1 ∧
      q' < f.body.lines.length ∧ f.partAt role q' = .registerThis :=
    previous here rfl fun r => by cases r <;> decide
  have fromCall {q : Nat} (here : f.partAt role q = .registerCall) : ∃ q', q = q' + 1 ∧
      q' < f.body.lines.length ∧ f.partAt role q' = .registerLoad :=
    previous here rfl fun r => by cases r <;> decide
  unfold isRegistering
  obtain here | here | here := registers
  · obtain ⟨q, position, inside, matched⟩ := fromThis here
    rw [(isPastSite_iff staging known 1 position inside).2 matched]
    rfl
  · obtain ⟨q₁, position, _, this⟩ := fromLoad here
    obtain ⟨q, rfl, inside, matched⟩ := fromThis this
    rw [(isPastSite_iff staging known 2 position inside).2 matched]
    simp
  · obtain ⟨q₂, position, _, load⟩ := fromCall here
    obtain ⟨q₁, rfl, _, this⟩ := fromLoad load
    obtain ⟨q, rfl, inside, matched⟩ := fromThis this
    rw [(isPastSite_iff staging known 3 position inside).2 matched]
    simp

end Staged

/-- The body is one of the module, and arguments and locals are free. -/
structure Sound (m : Module) (w : Watch) (h : Heap) (flight : Option Nat) (f : Frame) : Prop where
  known : ∃ d, HasBody m f.key d f.body
  args : ∀ v ∈ f.args, h.IsFree w.field flight v
  locals : ∀ v ∈ f.locals, h.IsFree w.field flight v

/-- Nothing is under way, or the release of the container is behind. -/
def Rests (w : Watch) (role : MethodKey → Handle → Role) (events : List Event) (h : Heap)
    (f : Frame) : Prop :=
  (f.part role).isCalm = true ∨
    f.part role = .released ∧ ∃ o, f.receiver? = some o ∧ Over w events h o

theorem Sound.later {events events' : List Event} {h h' : Heap} {flight flight' : Option Nat}
    (sound : f.Sound m w h flight) (later : Later w events h flight events' h' flight') :
    f.Sound m w h' flight' :=
  ⟨sound.known, fun v listed => later.free v (sound.args v listed),
    fun v listed => later.free v (sound.locals v listed)⟩

theorem Rests.later {events events' : List Event} {h h' : Heap} {flight flight' : Option Nat}
    (rests : f.Rests w role events h) (later : Later w events h flight events' h' flight') :
    f.Rests w role events' h' := by
  obtain calm | ⟨released, o, receiver, finished⟩ := rests
  · exact .inl calm
  · exact .inr ⟨released, o, receiver, later.finished o finished⟩

end Frame

/-! ## Those who wait, and the code at work -/

section

variable (m : Module) (w : Watch) (role : MethodKey → Handle → Role) (events : List Event)
  (h : Heap)

/-- Whoever waits holds free values; the list is what native code among them still owes. -/
inductive Waits (flight : Option Nat) : List Caller → List Value → Prop where
  | nil : Waits flight [] []
  | frame {f takes callers owed} : f.Sound m w h flight →
      (∀ v ∈ f.stack, h.IsFree w.field flight v) →
      (f.Rests w role events h ∨ f.part role = .registerThis ∧ takes = true) →
      (f.isPastSite w 1 = true ↔ f.part role = .registerThis) →
      Waits flight callers owed → Waits flight (.frame f takes :: callers) owed
  | constructing {this callers owed} : h.IsFree w.field flight this →
      Waits flight callers owed → Waits flight (.constructing this :: callers) owed
  | native {result rest callers owed} : (∀ v, result = some v → h.IsFree w.field flight v) →
      (∀ v ∈ rest, h.IsFree w.field flight v) → Waits flight callers owed →
      Waits flight (.native (afterRelease result rest) :: callers) (rest ++ owed)

/-- The value on its way into the container of the object that a body runs on. -/
def onto (receiver : Option Nat) (v : Value) : Nat → List Value :=
  match receiver with
  | some o => Account.only o v
  | none => calm

/-- The code at work, with what is on its way into a tracking field, into the containers, and out
of them. -/
inductive Flow : Active → List Caller → Option Nat → (Nat → List Value) → List Value → Prop where
  | resting {f callers owed} : f.Sound m w h none → (∀ v ∈ f.stack, h.IsFree w.field none v) →
      f.Rests w role events h → Waits m w role events h none callers owed →
      Flow (.frame f) callers none calm owed
  /-- The container is made and not yet handed over. -/
  | making {n f callers owed} : f.Sound m w h (some n) →
      (∀ v ∈ f.stack, h.IsFree w.field (some n) v) → f.part role = .prologueStore →
      f.isPastSite w 1 = false → Waits m w role events h (some n) callers owed →
      Flow (.native (releaseAll none [])) (.constructing (.object n) :: .frame f true :: callers)
        (some n) calm owed
  | handing {n f callers owed} : f.Sound m w h (some n) →
      (∀ v ∈ f.stack, h.IsFree w.field (some n) v) → f.part role = .prologueStore →
      f.isPastSite w 1 = false → Waits m w role events h (some n) callers owed →
      Flow (.native (releaseAll (some (.object n)) [])) (.frame f true :: callers) (some n) calm owed
  | storing {n f rest callers owed} : f.Sound m w h (some n) → f.stack = .object n :: rest →
      (∀ v ∈ rest, h.IsFree w.field (some n) v) → f.part role = .prologueStore →
      Waits m w role events h (some n) callers owed →
      Flow (.frame f) callers (some n) calm owed
  | registerThis {f v rest callers owed} : f.Sound m w h none → f.stack = v :: rest →
      (∀ v ∈ f.stack, h.IsFree w.field none v) → f.part role = .registerThis →
      Waits m w role events h none callers owed →
      Flow (.frame f) callers none (onto f.receiver? v) owed
  | registerLoad {f this v rest callers owed} : f.Sound m w h none →
      f.stack = this :: v :: rest → f.args.head? = some this →
      (∀ v ∈ f.stack, h.IsFree w.field none v) → f.part role = .registerLoad →
      Waits m w role events h none callers owed →
      Flow (.frame f) callers none (onto f.receiver? v) owed
  | registerCall {f o object v rest callers owed} : f.Sound m w h none →
      f.receiver? = some o → h.get? o = some object →
      f.stack = object.field w.field :: v :: rest →
      (∀ v' ∈ v :: rest, h.IsFree w.field none v') → f.part role = .registerCall →
      Waits m w role events h none callers owed →
      Flow (.frame f) callers none (Account.only o v) owed
  | releaseLoad {f this rest callers owed} : f.Sound m w h none → f.stack = this :: rest →
      f.args.head? = some this → (∀ v ∈ f.stack, h.IsFree w.field none v) →
      f.part role = .releaseLoad → Waits m w role events h none callers owed →
      Flow (.frame f) callers none calm owed
  | releaseCall {f o object rest callers owed} : f.Sound m w h none →
      f.receiver? = some o → h.get? o = some object → f.stack = object.field w.field :: rest →
      (∀ v ∈ rest, h.IsFree w.field none v) → f.part role = .releaseCall →
      Waits m w role events h none callers owed → Flow (.frame f) callers none calm owed
  | working {result rest callers owed} : (∀ v, result = some v → h.IsFree w.field none v) →
      (∀ v ∈ rest, h.IsFree w.field none v) → Waits m w role events h none callers owed →
      Flow (.native (releaseAll result rest)) callers none calm (rest ++ owed)

end

variable {m : Module} {w : Watch} {role : MethodKey → Handle → Role} {events events' : List Event}
  {h h' : Heap} {flight flight' : Option Nat} {callers : List Caller} {owed : List Value}

theorem Waits.later (waits : Waits m w role events h flight callers owed)
    (later : Later w events h flight events' h' flight') :
    Waits m w role events' h' flight' callers owed := by
  induction waits with
  | nil => exact .nil
  | frame sound stack waits site _ ih =>
    refine .frame (sound.later later) (fun v listed => later.free v (stack v listed)) ?_ site ih
    exact waits.imp_left fun rests => rests.later later
  | constructing free _ ih => exact .constructing (later.free _ free) ih
  | native result rest _ ih =>
    exact .native (fun v same => later.free v (result v same))
      (fun v listed => later.free v (rest v listed)) ih

/-- New events alone change nothing about the code at work. -/
theorem Flow.later {active : Active} {inflight : Nat → List Value}
    (flow : Flow m w role events h active callers flight inflight owed)
    (later : Later w events h flight events' h flight) :
    Flow m w role events' h active callers flight inflight owed := by
  cases flow with
  | resting sound stack rests waits =>
    exact .resting sound stack (rests.later later) (waits.later later)
  | making sound stack part site waits => exact .making sound stack part site (waits.later later)
  | handing sound stack part site waits => exact .handing sound stack part site (waits.later later)
  | storing sound stack rest part waits => exact .storing sound stack rest part (waits.later later)
  | registerThis sound stack free part waits =>
    exact .registerThis sound stack free part (waits.later later)
  | registerLoad sound stack first free part waits =>
    exact .registerLoad sound stack first free part (waits.later later)
  | registerCall sound receiver there stack free part waits =>
    exact .registerCall sound receiver there stack free part (waits.later later)
  | releaseLoad sound stack first free part waits =>
    exact .releaseLoad sound stack first free part (waits.later later)
  | releaseCall sound receiver there stack free part waits =>
    exact .releaseCall sound receiver there stack free part (waits.later later)
  | working result rest waits => exact .working result rest (waits.later later)

/-- Nothing is under way in a body that has its release behind it. -/
theorem Flow.rests {f : Frame} {inflight : Nat → List Value}
    (flow : Flow m w role events h (.frame f) callers flight inflight owed)
    (released : f.part role = .released) : f.Rests w role events h := by
  cases flow with
  | resting _ _ rests _ => exact rests
  | storing _ _ _ part _ | registerThis _ _ _ part _ | registerLoad _ _ _ _ part _
    | registerCall _ _ _ _ _ part _ | releaseLoad _ _ _ _ part _
    | releaseCall _ _ _ _ _ part _ =>
    rw [released] at part
    cases part

/-- A state of a run, or its end, as far as nothing has failed. -/
def Progress.Keeps (m : Module) (w : Watch) (due : Nat → Prop) (role : MethodKey → Handle → Role)
    (events : List Event) : Progress → Prop
  | .running s => s.isAlive = true → ∃ flight inflight owed,
      Flow m w role events s.memory.heap s.active s.callers flight inflight owed ∧
        Account w due events s.memory.heap flight inflight owed
  | .finished memory (.ok _) => Account w due events memory.heap none calm []
  | .finished _ (.error _) => True

end ReleaseWeaver.Machine
