import ReleaseWeaver.Proofs.Machine.Trails
import ReleaseWeaver.Proofs.Tracking.Alike
import ReleaseWeaver.Proofs.Weave.Spread

/-
  Registration is transparent. A body with the registration after its handle calls runs in step
  with the body without it: between two of its own instructions there is at most one run of the
  registration, which leaves the stack and the locals as they were and the heap but for the entries
  of the container. This takes a helper that hands back its first argument, callees that do not
  look at those entries, and branches that do not lead into the run: a branch to an instruction that
  the body does not have may lead to one that it gets.
-/

namespace ReleaseWeaver.Machine

/-! ## What is taken for granted -/

/-- The field of the object holds a container, in a state that is accepted. -/
def Heap.Keeps (h : Heap) (field : String) (o n : Nat) (accepts : Bool → Prop) : Prop :=
  h.Has field o (.object n) ∧ ∃ entries released, h.Holds n entries released ∧ accepts released

theorem Heap.Alike.keeps {h h' : Heap} {field : String} {o n : Nat} {accepts : Bool → Prop}
    (alike : h.Alike n h') (keeps : h.Keeps field o n accepts) : h'.Keeps field o n accepts := by
  obtain ⟨has, entries, released, holds, accepted⟩ := keeps
  obtain ⟨entries', holds'⟩ := alike.holds holds
  exact ⟨alike.has has, entries', released, holds', accepted⟩

/-- The call that registers a value. -/
def registering (helper : MethodRef) (n : Nat) (v : Value) : Request :=
  .invoke { method := helper, args := [v, .object n], isVirtual := false }

/-- The helper hands back its first argument and changes nothing but the entries of the container,
as long as that is in an accepted state. -/
structure Program.Helps (p : Program) (helper : MethodRef) (n : Nat) (accepts : Bool → Prop) :
    Prop where
  arity : helper.arity = 2
  returns : helper.returns.isSome = true
  yields {h entries released} : h.Holds n entries released → accepts released → ∀ v,
    ∃ h', p.Yields h (registering helper n v) h' (.ok (some v)) ∧ h.Alike n h'

/-- Nothing that the activation does writes the field of the object, and what it asks for comes to
the same whatever the entries of the container are, and leaves it accepted. -/
structure Program.Ignores (p : Program) (f : Frame) (h : Heap) (field : String) (o n : Nat)
    (accepts : Bool → Prop) : Prop where
  unwritten {log g h₁ v} : p.Trail f h log g h₁ → g.stores? field ≠ some (o, v)
  keeps {log g h₁ g' takes request h₂ result} : p.Trail f h log g h₁ →
    g.AsksFor h₁ g' takes request → h₁.Keeps field o n accepts →
    p.Yields h₁ request h₂ (.ok result) → h₂.Keeps field o n accepts
  blind {log g h₁ g' takes request h₂ h₃ h₂' outcome} : p.Trail f h log g h₁ →
    g.AsksFor h₁ g' takes request → h₁.Alike n h₂ → h₁.Alike n h₃ →
    p.Yields h₂ request h₂' outcome → ∃ h₃', p.Yields h₃ request h₃' outcome ∧ h₂'.Alike n h₃'

/-- What follows an exchange in the log: a match that has come to a value is registered. -/
def registered (site : Instr → Bool) (helper : MethodRef) (n : Nat) : Exchange → List Exchange
  | (.invoke c, .ok result) =>
    if site (.invoke c.method c.isVirtual) then
      [(registering helper n (result.getD .null), .ok (some (result.getD .null)))]
    else []
  | _ => []

/-- The log with the registrations, each right after its match. -/
def withRegistrations (site : Instr → Bool) (helper : MethodRef) (n : Nat) (log : List Exchange) :
    List Exchange :=
  log.flatMap fun e => e :: registered site helper n e

theorem withRegistrations_append (site : Instr → Bool) (helper : MethodRef) (n : Nat)
    (log more : List Exchange) : withRegistrations site helper n (log ++ more) =
      withRegistrations site helper n log ++ withRegistrations site helper n more :=
  List.flatMap_append

theorem withRegistrations_singleton (site : Instr → Bool) (helper : MethodRef) (n : Nat)
    (e : Exchange) : withRegistrations site helper n [e] = e :: registered site helper n e :=
  List.flatMap_singleton _ _

/-! ## One instruction -/

namespace Effect

variable {n : Nat} {move : Frame → Frame} {r : Except ExecError Effect} {effect : Effect}
  {g : Frame} {takes : Bool} {request : Request}

theorem Twins.asks (twins : Twins n move (.ok effect) r) (asks : effect.Asks g takes request) :
    ∃ effect', r = .ok effect' ∧ effect'.Asks (move g) takes request := by
  cases asks with
  | construct => cases twins; exact ⟨_, rfl, .construct⟩
  | invoke => cases twins; exact ⟨_, rfl, .invoke⟩

theorem Twins.asks_back (twins : Twins n move r (.ok effect)) (asks : effect.Asks g takes request) :
    ∃ effect' g', r = .ok effect' ∧ effect'.Asks g' takes request ∧ g = move g' := by
  cases asks with
  | construct => cases twins; exact ⟨_, _, rfl, .construct, rfl⟩
  | invoke => cases twins; exact ⟨_, _, rfl, .invoke, rfl⟩

/-- An activation that asks for something is past the instruction, which says what is asked for. -/
theorem Asks.past {f : Frame} {h : Heap} {i : Instr} (asks : effect.Asks g takes request)
    (run : f.exec h i = .ok effect) : g.Continues f ∧ g.position = f.position + 1 ∧
      ((∃ c, request = .invoke c ∧ i = .invoke c.method c.isVirtual ∧
          takes = c.method.returns.isSome) ∨
        (∃ className args, request = .construct className args) ∧ i.invoked? = none) := by
  have executes := Frame.executes_of_exec run
  cases asks with
  | construct =>
    cases executes
    exact ⟨⟨rfl, rfl, rfl⟩, rfl, .inr ⟨⟨_, _, rfl⟩, rfl⟩⟩
  | invoke =>
    cases executes
    exact ⟨⟨rfl, rfl, rfl⟩, rfl, .inl ⟨_, rfl, rfl, rfl⟩⟩

end Effect

/-- An instruction that stores nothing into the field keeps the container in it. -/
theorem Frame.Executes.keeps {g g' : Frame} {h h' : Heap} {i : Instr} {field : String} {o n : Nat}
    {accepts : Bool → Prop} (executes : g.Executes h i (.next g' h')) (here : g.current? = some i)
    (unwritten : ∀ v, g.stores? field ≠ some (o, v)) (keeps : h.Keeps field o n accepts) :
    h'.Keeps field o n accepts := by
  obtain ⟨has, entries, released, holds, accepted⟩ := keeps
  cases executes with
  | @stfld fld content k object rest stack there =>
    refine ⟨has.setField fun named same => unwritten content ?_, entries, released,
      Heap.holds_setField.2 holds, accepted⟩
    rw [Frame.stores?, here, stack]
    dsimp only
    rw [if_pos named, same]
  | _ => exact ⟨has, entries, released, holds, accepted⟩

namespace Program

variable {p : Program} {f g : Frame} {h h₁ : Heap} {log : List Exchange}

/-- A trail stays in one activation. -/
theorem Trail.continues (trail : p.Trail f h log g h₁) : g.Continues f := by
  induction trail with
  | start => exact ⟨rfl, rfl, rfl⟩
  | act _ acts ih =>
    cases acts with
    | moved next =>
      obtain ⟨i, _, run⟩ := Frame.effect?_eq_some.1 next
      exact (Frame.executes_of_exec run).continues.trans ih
    | answered asks =>
      obtain ⟨effect, next, asks⟩ := asks
      obtain ⟨i, _, run⟩ := Frame.effect?_eq_some.1 next
      exact ((asks.past run).1.accept _ _).trans ih

/-- The field of the object goes on to hold the container. -/
theorem Ignores.kept {field : String} {o n : Nat} {accepts : Bool → Prop}
    (ignores : p.Ignores f h field o n accepts) (trail : p.Trail f h log g h₁)
    (keeps : h.Keeps field o n accepts) : h₁.Keeps field o n accepts := by
  induction trail with
  | start => exact keeps
  | act trail acts ih =>
    cases acts with
    | moved next =>
      obtain ⟨i, here, run⟩ := Frame.effect?_eq_some.1 next
      have unwritten v := ignores.unwritten (v := v) trail
      exact (Frame.executes_of_exec run).keeps here unwritten ih
    | answered asks yields => exact ignores.keeps trail asks ih yields

end Program

/-! ## The setting -/

/-- The second body is that of the activation with the registration after every match, and nothing
in the way of it: no branch leads into a run, and what is asked of the helper and of the callees
holds. -/
structure Program.Registers (p : Program) (f : Frame) (h : Heap) (w : Body) (site : Instr → Bool)
    (pos : Nat → Nat) (field : FieldRef) (helper : MethodRef) (o n : Nat) (accepts : Bool → Prop) :
    Prop where
  spreads : f.body.Spreads w site (registration field helper) pos
  apart {l t} : l ∈ f.body.lines → l.2.target? = some t → t ∈ w.handles → t ∈ f.body.handles
  calls {i} : site i = true →
    ∃ method isVirtual, i = .invoke method isVirtual ∧ method.returns.isSome = true
  this : f.args[0]? = some (.object o)
  helps : p.Helps helper n accepts
  ignores : p.Ignores f h field.name o n accepts
  keeps : h.Keeps field.name o n accepts

/-- The activation in the run that follows a match, with some values more on the stack. -/
def Frame.midway (w : Body) (position : Nat) (values : List Value) (g : Frame) : Frame :=
  { g with body := w, position := position, stack := values ++ g.stack }

/-- The activation is right behind a match, whose value is on the stack. -/
structure Frame.Past (g f : Frame) (site : Instr → Bool) (q : Nat) (v : Value) : Prop where
  continues : g.Continues f
  position : g.position = q + 1
  line : ∃ l, f.body.lines[q]? = some l ∧ site l.2 = true
  stack : ∃ rest, g.stack = v :: rest

/-- How far an activation is in the run, and what it has on the stack for it. -/
inductive Stage (o n : Nat) : Nat → List Value → Prop where
  | this : Stage o n 0 []
  | container : Stage o n 1 [.object o]
  | call : Stage o n 2 [.object n]

theorem Stage.lt {o n j : Nat} {values : List Value} (stage : Stage o n j values) : j < 3 := by
  cases stage <;> decide

/-- The next instruction of an activation comes to the same in the other body, but that the
activation is taken behind it: past a match to the run, and otherwise to the next line. -/
inductive Frame.Together (f g : Frame) (w : Body) (site : Instr → Bool) (pos : Nat → Nat) (n : Nat)
    (h h' : Heap) : Prop where
  | ended : g.effect? h = none → (g.moved w pos).effect? h' = none → Together f g w site pos n h h'
  | both {t i pos' r r'} : f.body.lines[g.position]? = some (t, i) → g.exec h i = r →
      g.effect? h = some r → (g.moved w pos).effect? h' = some r' →
      Effect.Twins n (Frame.moved w pos') r r' → (site i = false → pos' = pos) →
      (site i = true → pos' (g.position + 1) = pos g.position + 1) →
      Together f g w site pos n h h'

/-- Where the other body is: at an instruction of the original that the original comes to, or in
the run after a match that it has come past. -/
inductive Program.Along (p : Program) (f : Frame) (h : Heap) (w : Body) (site : Instr → Bool)
    (pos : Nat → Nat) (helper : MethodRef) (o n : Nat) : List Exchange → Frame → Heap → Prop where
  | aligned {log g h₁ h₁'} : p.Trail f h log g h₁ → h₁.Alike n h₁' →
      Along p f h w site pos helper o n (withRegistrations site helper n log) (g.moved w pos) h₁'
  | inside {log log' g h₁ h₁' q v j values} : p.Trail f h log g h₁ → h₁.Alike n h₁' →
      g.Past f site q v → Stage o n j values →
      withRegistrations site helper n log = log' ++ [(registering helper n v, .ok (some v))] →
      Along p f h w site pos helper o n log' (g.midway w (pos q + 1 + j) values) h₁'

namespace Program.Registers

variable {p : Program} {f g gx g' : Frame} {h h₁ h₁' h₂ h₂' : Heap} {w : Body} {site : Instr → Bool}
  {pos pos' : Nat → Nat} {field : FieldRef} {helper : MethodRef} {o n q j : Nat}
  {accepts : Bool → Prop} {log log' more : List Exchange} {i : Instr} {v : Value}
  {values : List Value} {effect : Effect} {takes : Bool} {request : Request}
  {result : Option Value} {outcome : Outcome}
  (registers : p.Registers f h w site pos field helper o n accepts)

include registers

theorem invariant (trail : p.Trail f h log g h₁) :
    g.Continues f ∧ h₁.Keeps field.name o n accepts :=
  ⟨trail.continues, registers.ignores.kept trail registers.keeps⟩

/-! ## One instruction of the original -/

theorem together (continues : g.Continues f) (alike : h₁.Alike n h₁') :
    f.Together g w site pos n h₁ h₁' := by
  have same : (g.moved w pos).current? = g.current? := by
    rw [Frame.current?, Frame.current?, continues.body, ← registers.spreads.line]
    rfl
  cases here : g.current? with
  | none =>
    rw [here] at same
    exact .ended (Option.map_eq_none_iff.2 here) (Option.map_eq_none_iff.2 same)
  | some i =>
    obtain ⟨t, line⟩ := Frame.current?_eq_some.1 here
    rw [continues.body] at line
    rw [here] at same
    have effect := Frame.effect?_eq_some.2 ⟨i, here, Eq.refl (g.exec h₁ i)⟩
    have effect' := Frame.effect?_eq_some.2 ⟨i, same, Eq.refl ((g.moved w pos).exec h₁' i)⟩
    cases matched : site i with
    | false =>
      refine .both line rfl effect effect' (Frame.exec_moved alike
        (registers.spreads.next line matched) fun t leads => ?_) (fun _ => rfl)
        fun impossible => by rw [matched] at impossible; cases impossible
      rw [continues.body]
      exact registers.spreads.position?_eq (registers.apart (List.mem_of_getElem? line) leads)
    | true =>
      obtain ⟨method, isVirtual, rfl, _⟩ := registers.calls matched
      -- Seen from a match, the positions go on as they do in the original.
      have start : g.moved w pos = g.moved w fun q => pos g.position + (q - g.position) := by
        rw [Frame.moved, Frame.moved, Nat.sub_self]
        rfl
      have one : pos g.position + (g.position + 1 - g.position) = pos g.position + 1 := by omega
      have twins : Effect.Twins n (Frame.moved w fun q => pos g.position + (q - g.position))
          (g.exec h₁ (.invoke method isVirtual))
          ((g.moved w pos).exec h₁' (.invoke method isVirtual)) :=
        start ▸ Frame.exec_moved alike (by omega) fun t leads => by cases leads
      exact .both line rfl effect effect' twins
        (fun impossible => by rw [matched] at impossible; cases impossible) fun _ => one

/-- Where an answer takes the activation: to its next instruction, or behind a match. -/
theorem arrives (continues : g.Continues f) {t : Handle}
    (line : f.body.lines[g.position]? = some (t, i)) (run : g.exec h₁ i = .ok effect)
    (asks : effect.Asks gx takes request) (next : site i = false → pos' = pos)
    (past : site i = true → pos' (g.position + 1) = pos g.position + 1) (result : Option Value) :
    (pos' = pos ∧ registered site helper n (request, .ok result) = []) ∨
      ((gx.accept takes result).Past f site g.position (result.getD .null) ∧
        registered site helper n (request, .ok result) =
          [(registering helper n (result.getD .null), .ok (some (result.getD .null)))] ∧
        (gx.accept takes result).moved w pos' =
          (gx.accept takes result).midway w (pos g.position + 1) []) := by
  obtain ⟨continues', position, ⟨c, rfl, rfl, rfl⟩ | ⟨⟨_, _, rfl⟩, silent⟩⟩ := asks.past run
  · cases matched : site (.invoke c.method c.isVirtual) with
    | false =>
      exact .inl ⟨next matched, by rw [registered, matched, if_neg Bool.false_ne_true]⟩
    | true =>
      obtain ⟨method, isVirtual, same, returns⟩ := registers.calls matched
      cases same
      rw [returns]
      refine .inr ⟨⟨(continues'.accept _ _).trans continues, position, ⟨_, line, matched⟩, _, rfl⟩,
        by rw [registered, matched, if_pos rfl], ?_⟩
      rw [← past matched, ← position]
      rfl
  · refine .inl ⟨next ?_, rfl⟩
    by_contra matched
    obtain ⟨method, isVirtual, rfl, _⟩ := registers.calls (Bool.not_eq_false _ ▸ matched)
    cases silent

/-! ## The run after a match -/

theorem current?_midway (past : g.Past f site q v) (inside : j < (registration field helper).length)
    (values : List Value) : (g.midway w (pos q + 1 + j) values).current? =
      some (registration field helper)[j] := by
  obtain ⟨l, line, matched⟩ := past.line
  obtain ⟨t, _, there⟩ := registers.spreads.inserted line matched inside
  exact Frame.current?_eq_some.2 ⟨t, there⟩

/-- The activation loads the object. -/
theorem acts_this (past : g.Past f site q v) (h₁ : Heap) :
    p.Acts (g.midway w (pos q + 1) []) h₁ [] (g.midway w (pos q + 2) [.object o]) h₁ := by
  refine .moved (Frame.effect?_eq_some.2 ⟨.ldthis, registers.current?_midway past (j := 0)
    (show 0 < 3 by decide) [], ?_⟩)
  have this : (g.midway w (pos q + 1) []).args[(0 : UInt16).toNat]? = some (.object o) := by
    rw [← registers.this, ← past.continues.args]
    rfl
  rw [Instr.ldthis, Frame.exec_ldarg, this]
  rfl

/-- The activation reads the container. -/
theorem acts_field (past : g.Past f site q v) (keeps : h₁.Keeps field.name o n accepts) :
    p.Acts (g.midway w (pos q + 2) [.object o]) h₁ []
      (g.midway w (pos q + 3) [.object n]) h₁ := by
  refine .moved (Frame.effect?_eq_some.2 ⟨.ldfld field, registers.current?_midway past (j := 1)
    (show 1 < 3 by decide) [.object o], ?_⟩)
  obtain ⟨⟨object, there, content⟩, _⟩ := keeps
  have read : h₁.field (.object o) field.name = .ok (.object n) := by
    rw [Heap.field, Heap.object_eq_ok.2 ⟨rfl, there⟩, ← content]
    rfl
  have stack : (g.midway w (pos q + 2) [.object o]).stack = .object o :: g.stack := rfl
  rw [Frame.exec_ldfld stack (Value.noConfusion ·), read]
  rfl

/-- The activation registers the value, and goes on behind the run. -/
theorem acts_call (past : g.Past f site q v) (keeps : h₁.Keeps field.name o n accepts) :
    ∃ h₂, p.Acts (g.midway w (pos q + 3) [.object n]) h₁
      [(registering helper n v, .ok (some v))] (g.moved w pos) h₂ ∧ h₁.Alike n h₂ := by
  obtain ⟨-, entries, released, holds, accepted⟩ := keeps
  obtain ⟨h₂, yields, alike⟩ := registers.helps.yields holds accepted v
  obtain ⟨rest, stack⟩ := past.stack
  obtain ⟨l, line, matched⟩ := past.line
  have behind : pos g.position = pos q + 3 + 1 := by
    rw [past.position, registers.spreads.past line matched]
    rfl
  have taken : Frame.take? (g.midway w (pos q + 3) [.object n]).stack helper.arity =
      some ([v, .object n], rest) := by
    rw [registers.helps.arity, Frame.midway, stack]
    rfl
  have run : (g.midway w (pos q + 3) [.object n]).exec h₁ (.call helper) = .ok (.invoke
      ((g.midway w (pos q + 3) [.object n]).continueWith rest)
      { method := helper, args := [v, .object n], isVirtual := false }) := by
    rw [Instr.call, Frame.exec_invoke, taken]
  have acts := Acts.answered ⟨_, Frame.effect?_eq_some.2 ⟨_, registers.current?_midway past (j := 2)
    (show 2 < 3 by decide) [.object n], run⟩, .invoke⟩ yields
  refine ⟨h₂, ?_, alike⟩
  rw [registers.helps.returns] at acts
  have arrived : ((g.midway w (pos q + 3) [.object n]).continueWith rest).accept true (some v) =
      g.moved w pos := by
    rw [Frame.moved, behind]
    show ({ g with body := w, position := pos q + 3 + 1, stack := v :: rest } : Frame) =
      { g with body := w, position := pos q + 3 + 1 }
    rw [← stack]
  rwa [arrived] at acts

/-- The whole run: one call of the helper, on the value of the match and the container. -/
theorem trail_run (past : g.Past f site q v) (keeps : h₁.Keeps field.name o n accepts) :
    ∃ h₂, p.Trail (g.midway w (pos q + 1) []) h₁ [(registering helper n v, .ok (some v))]
      (g.moved w pos) h₂ ∧ h₁.Alike n h₂ := by
  obtain ⟨h₂, acts, alike⟩ := registers.acts_call past keeps
  have loads := (registers.acts_this past h₁).trail
  exact ⟨h₂, (loads.trans (registers.acts_field past keeps).trail).trans acts.trail, alike⟩

/-! ## From the original to the other body -/

theorem silent_of_next (run : g.exec h₁ i = .ok (.next g' h₂)) : site i = false := by
  by_contra matched
  obtain ⟨method, isVirtual, rfl, _⟩ := registers.calls (Bool.not_eq_false _ ▸ matched)
  cases Frame.executes_of_exec run

theorem acts_forth (trail : p.Trail f h log g h₁) (alike : h₁.Alike n h₁')
    (acts : p.Acts g h₁ more g' h₂) :
    ∃ h₂', p.Trail (g.moved w pos) h₁' (withRegistrations site helper n more) (g'.moved w pos) h₂' ∧
      h₂.Alike n h₂' := by
  have continues := (registers.invariant trail).1
  have keeps' := (registers.invariant (trail.act acts)).2
  cases acts with
  | moved next =>
    cases registers.together continues alike with
    | ended none => cases none.symm.trans next
    | both line run here here' twins onward past =>
      cases here.symm.trans next
      cases twins with
      | next _ alike' =>
        rw [onward (registers.silent_of_next run)] at here'
        exact ⟨_, (Acts.moved here').trail, alike'⟩
  | @answered gx takes request _ result asked yields =>
    obtain ⟨effect, next, asks⟩ := asked
    cases registers.together continues alike with
    | ended none => cases none.symm.trans next
    | both line run here here' twins onward past =>
      cases here.symm.trans next
      obtain ⟨effect', rfl, asks'⟩ := twins.asks asks
      obtain ⟨h₂', yields', alike'⟩ :=
        registers.ignores.blind trail ⟨effect, next, asks⟩ (.refl n h₁) alike yields
      have acts' : p.Acts (g.moved w pos) h₁' [(request, .ok result)] _ h₂' :=
        .answered ⟨effect', here', asks'⟩ yields'
      rw [Frame.moved_accept] at acts'
      rw [withRegistrations_singleton]
      obtain ⟨rfl, silent⟩ | ⟨behind, logged, same⟩ :=
        registers.arrives continues line run asks onward past result
      · rw [silent]
        exact ⟨h₂', acts'.trail, alike'⟩
      · rw [same] at acts'
        obtain ⟨h₃, trail₃, alike₃⟩ := registers.trail_run behind (alike'.keeps keeps')
        rw [logged]
        exact ⟨h₃, acts'.trail.trans trail₃, alike'.trans alike₃⟩

/-- Wherever the original comes, the other body comes. -/
theorem trail_forth (trail : p.Trail f h log g h₁) :
    ∃ h₁', p.Trail (f.moved w pos) h (withRegistrations site helper n log) (g.moved w pos) h₁' ∧
      h₁.Alike n h₁' := by
  induction trail with
  | start => exact ⟨h, .start, .refl n h⟩
  | act trail acts ih =>
    obtain ⟨h₁', trail', alike⟩ := ih
    obtain ⟨h₂', further, alike'⟩ := registers.acts_forth trail alike acts
    rw [withRegistrations_append]
    exact ⟨h₂', trail'.trans further, alike'⟩

theorem stops_forth (trail : p.Trail f h log g h₁) (alike : h₁.Alike n h₁')
    (stops : p.Stops g h₁ more outcome h₂) :
    ∃ h₂', p.Stops (g.moved w pos) h₁' more outcome h₂' ∧ h₂.Alike n h₂' := by
  have continues := (registers.invariant trail).1
  cases registers.together continues alike with
  | ended none none' =>
    cases stops with
    | fell => exact ⟨h₁', .fell none', alike⟩
    | failed next | left next => cases none.symm.trans next
    | refused asked =>
      obtain ⟨effect, next, _⟩ := asked
      cases none.symm.trans next
  | both line run here here' twins onward past =>
    cases stops with
    | fell next => cases here.symm.trans next
    | failed next =>
      cases here.symm.trans next
      cases twins
      exact ⟨h₁', .failed here', alike⟩
    | left next =>
      cases here.symm.trans next
      cases twins
      exact ⟨h₁', .left here', alike⟩
    | refused asked yields =>
      obtain ⟨effect, next, asks⟩ := asked
      cases here.symm.trans next
      obtain ⟨effect', rfl, asks'⟩ := twins.asks asks
      obtain ⟨h₂', yields', alike'⟩ :=
        registers.ignores.blind trail ⟨effect, next, asks⟩ (.refl n h₁) alike yields
      exact ⟨h₂', .refused ⟨effect', here', asks'⟩ yields', alike'⟩

/-! ## From the other body to the original -/

theorem along_step (along : p.Along f h w site pos helper o n log' g h₁')
    (acts : p.Acts g h₁' more g' h₂') :
    p.Along f h w site pos helper o n (log' ++ more) g' h₂' := by
  cases along with
  | @aligned log g h₁ _ trail alike =>
    have continues := (registers.invariant trail).1
    cases acts with
    | moved next' =>
      cases registers.together continues alike with
      | ended _ none' => cases none'.symm.trans next'
      | both line run here here' twins onward past =>
        cases here'.symm.trans next'
        cases twins with
        | next _ alike' =>
          rw [onward (registers.silent_of_next run), List.append_nil]
          have further := trail.act (.moved here)
          rw [List.append_nil] at further
          exact .aligned further alike'
    | @answered _ takes request _ result asked' yields' =>
      obtain ⟨effect', next', asks'⟩ := asked'
      cases registers.together continues alike with
      | ended _ none' => cases none'.symm.trans next'
      | both line run here here' twins onward past =>
        cases here'.symm.trans next'
        obtain ⟨effect, gx, rfl, asks, rfl⟩ := twins.asks_back asks'
        obtain ⟨h₂, yields, alike'⟩ :=
          registers.ignores.blind trail ⟨effect, here, asks⟩ alike (.refl n h₁) yields'
        have further := trail.act (.answered ⟨effect, here, asks⟩ yields)
        rw [Frame.moved_accept]
        obtain ⟨rfl, silent⟩ | ⟨behind, logged, same⟩ :=
          registers.arrives continues line run asks onward past result
        · have log : withRegistrations site helper n (log ++ [(request, .ok result)]) =
              withRegistrations site helper n log ++ [(request, .ok result)] := by
            rw [withRegistrations_append, withRegistrations_singleton, silent]
          exact log ▸ .aligned further alike'.symm
        · rw [same]
          refine .inside further alike'.symm behind .this ?_
          rw [withRegistrations_append, withRegistrations_singleton, logged, List.append_assoc]
          rfl
  | inside trail alike past stage logged =>
    have keeps := alike.keeps (registers.invariant trail).2
    cases stage with
    | this =>
      obtain ⟨rfl, rfl, rfl⟩ := acts.unique (registers.acts_this past h₁')
      rw [List.append_nil]
      exact .inside trail alike past .container logged
    | container =>
      obtain ⟨rfl, rfl, rfl⟩ := acts.unique (registers.acts_field past keeps)
      rw [List.append_nil]
      exact .inside trail alike past .call logged
    | call =>
      obtain ⟨h₃, calls, alike'⟩ := registers.acts_call past keeps
      obtain ⟨rfl, rfl, rfl⟩ := acts.unique calls
      exact logged ▸ .aligned trail (alike.trans alike')

theorem along (trail' : p.Trail (f.moved w pos) h log' g h₁') :
    p.Along f h w site pos helper o n log' g h₁' := by
  induction trail' with
  | start => exact .aligned .start (.refl n h)
  | act _ acts ih => exact registers.along_step ih acts

/-- In the run the activation goes on. -/
theorem acts_midway (past : g.Past f site q v) (keeps : h₁.Keeps field.name o n accepts)
    (stage : Stage o n j values) :
    ∃ more g' h₂, p.Acts (g.midway w (pos q + 1 + j) values) h₁ more g' h₂ := by
  cases stage with
  | this => exact ⟨_, _, _, registers.acts_this past h₁⟩
  | container => exact ⟨_, _, _, registers.acts_field past keeps⟩
  | call =>
    obtain ⟨h₂, calls, _⟩ := registers.acts_call past keeps
    exact ⟨_, _, h₂, calls⟩

theorem stops_back (trail : p.Trail f h log g h₁) (alike : h₁.Alike n h₁')
    (stops : p.Stops (g.moved w pos) h₁' more outcome h₂') :
    ∃ h₂, p.Stops g h₁ more outcome h₂ ∧ h₂.Alike n h₂' := by
  have continues := (registers.invariant trail).1
  cases registers.together continues alike with
  | ended none none' =>
    cases stops with
    | fell => exact ⟨h₁, .fell none, alike⟩
    | failed next | left next => cases none'.symm.trans next
    | refused asked =>
      obtain ⟨effect, next, _⟩ := asked
      cases none'.symm.trans next
  | both line run here here' twins onward past =>
    cases stops with
    | fell next => cases here'.symm.trans next
    | failed next =>
      cases here'.symm.trans next
      cases twins
      exact ⟨h₁, .failed here, alike⟩
    | left next =>
      cases here'.symm.trans next
      cases twins
      exact ⟨h₁, .left here, alike⟩
    | refused asked yields' =>
      obtain ⟨effect', next, asks'⟩ := asked
      cases here'.symm.trans next
      obtain ⟨effect, gx, rfl, asks, -⟩ := twins.asks_back asks'
      obtain ⟨h₂, yields, alike'⟩ :=
        registers.ignores.blind trail ⟨effect, here, asks⟩ alike (.refl n h₁) yields'
      exact ⟨h₂, .refused ⟨effect, here, asks⟩ yields, alike'.symm⟩

end Program.Registers

end ReleaseWeaver.Machine
