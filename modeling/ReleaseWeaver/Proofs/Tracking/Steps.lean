import ReleaseWeaver.Proofs.Tracking.Requests

/-
  One step of a machine keeps the account. An ordinary instruction works on free values; the
  instructions of a prologue, of a registration and of a release hand on, step by step, what is
  under way; and whoever comes to the final exit of the teardown has the release behind it.
-/

namespace ReleaseWeaver.Machine

open Program Reactive

variable {p : Program} {w : Watch} {due : Nat → Prop} {role : MethodKey → Handle → Role}
  {events : List Event} {memory : Memory} {callers : List Caller} {owed : List Value} {f f' : Frame}
  {h h' : Heap} {i : Instr} {effect : Effect}

/-! ## The events of an instruction -/

theorem emitted_frame (memory : Memory) (f : Frame) (callers : List Caller) :
    emitted w ⟨memory, .frame f, callers⟩ = f.stored w ++ f.leaves w ++
      match f.result? with
      | some result => handed w result callers
      | none => [] := rfl

/-- Most instructions make no event. -/
theorem emitted_eq_nil (here : f.current? = some i) (stays : i.isRet = false)
    (apart : ∀ field, i = .stfld field → field.name ≠ w.field) :
    emitted w ⟨memory, .frame f, callers⟩ = [] := by
  have stored : f.stored w = [] := by
    unfold Frame.stored
    split
    · next field _ _ _ storing _ =>
      rw [here] at storing
      exact if_neg (apart field (Option.some.inj storing))
    · rfl
  have leaves : f.leaves w = [] := by
    unfold Frame.leaves
    split
    · next leaving _ =>
      rw [here] at leaving
      cases leaving
      cases stays
    · rfl
  have result : f.result? = none := by
    unfold Frame.result?
    split
    · next leaving =>
      rw [here] at leaving
      cases leaving
      cases stays
    · rfl
  rw [emitted_frame, stored, leaves, result]
  rfl

theorem emitted_ret (here : f.current? = some .ret) {result : Option Value}
    (executes : f.Executes h .ret (.leave result)) :
    emitted w ⟨memory, .frame f, callers⟩ = f.leaves w ++ handed w result callers := by
  have stored : f.stored w = [] := by
    unfold Frame.stored
    rw [here]
  have same : f.result? = some result := by
    unfold Frame.result?
    rw [here]
    cases executes with
    | ret value none =>
      cases returns : f.returnsValue with
      | true =>
        obtain ⟨v, rest, stack, rfl⟩ := value returns
        rw [stack]
        rfl
      | false =>
        rw [none returns]
        rfl
  rw [emitted_frame, stored, same]
  rfl

theorem emitted_store {field : FieldRef} {content : Value} {o : Nat} {rest : List Value}
    (here : f.current? = some (.stfld field)) (named : field.name = w.field)
    (stack : f.stack = content :: .object o :: rest) :
    emitted w ⟨memory, .frame f, callers⟩ = [.prologue o] := by
  have stored : f.stored w = [.prologue o] := by
    unfold Frame.stored
    rw [here, stack]
    exact if_pos named
  have leaves : f.leaves w = [] := by
    unfold Frame.leaves
    rw [here]
  have result : f.result? = none := by
    unfold Frame.result?
    rw [here]
  rw [emitted_frame, stored, leaves, result]
  rfl

/-! ## One instruction -/

/-- Go on with what an instruction comes to. -/
def Program.act (p : Program) (memory : Memory) (callers : List Caller) : Effect → Progress
  | .next f heap => .running ⟨{ memory with heap }, .frame f, callers⟩
  | .construct f className args => p.construct memory (.frame f true :: callers) className args
  | .invoke f c => p.invoke memory (.frame f c.method.returns.isSome :: callers) c
  | .leave result => resume memory result callers

/-- A step of a body fails, or executes an instruction. -/
theorem stepFrame_keeps (each : ∀ i effect, f.current? = some i →
      f.Executes memory.heap i effect →
        (p.act { memory with steps := memory.steps + 1 } callers effect).Keeps
          p.module w due role events) :
    (p.stepFrame memory callers f).Keeps p.module w due role events := by
  unfold stepFrame
  split
  · exact keeps_fail _ _ _ _
  · next i here =>
    dsimp only
    split
    · exact keeps_fail _ _ _ _
    · split
      · exact keeps_fail _ _ _ _
      all_goals
        next run => exact each i _ here (Frame.executes_of_exec run)

theorem Frame.Sound.move {m : Module} {flight : Option Nat} (sound : f.Sound m w h flight)
    (stack : List Value) (position : Nat) :
    Frame.Sound m w h flight { f with stack, position } :=
  ⟨sound.known, sound.args, sound.locals⟩

namespace Frame.Executes

/-- An instruction that leaves the tracking field alone keeps what is free, and the account. -/
theorem next_account {m : Module} (executes : f.Executes h i (.next f' h'))
    (sound : f.Sound m w h none) (stack : ∀ v ∈ f.stack, h.IsFree w.field none v)
    (account : Account w due events h none calm owed)
    (apart : ∀ field, i.accessed? = some field → field.name ≠ w.field) :
    (Account w due events h' none calm owed ∧ Later w events h none events h' none) ∧
      f'.Sound m w h' none ∧ ∀ v ∈ f'.stack, h'.IsFree w.field none v := by
  have same : Account w due events h none calm owed ∧ Later w events h none events h none :=
    ⟨account, .refl w events h none⟩
  have pushed {v : Value} (free : h.IsFree w.field none v) :
      ∀ v' ∈ v :: f.stack, h.IsFree w.field none v' := by
    intro v' listed
    obtain rfl | listed := List.mem_cons.1 listed
    · exact free
    · exact stack v' listed
  have popped {v : Value} {rest : List Value} (eq : f.stack = v :: rest) :
      h.IsFree w.field none v ∧ ∀ v' ∈ rest, h.IsFree w.field none v' :=
    ⟨stack v (eq ▸ List.mem_cons_self), fun v' listed =>
      stack v' (eq ▸ List.mem_cons_of_mem v listed)⟩
  have kept (stack : List Value) (position : Nat) : Sound m w h none { f with stack, position } :=
    sound.move stack position
  cases executes with
  | nop => exact ⟨same, kept _ _, stack⟩
  | ldarg there => exact ⟨same, kept _ _, pushed (sound.args _ (List.mem_of_getElem? there))⟩
  | ldloc there => exact ⟨same, kept _ _, pushed (sound.locals _ (List.mem_of_getElem? there))⟩
  | stloc eq _ =>
    refine ⟨same, ⟨sound.known, sound.args, fun v listed => ?_⟩, (popped eq).2⟩
    obtain old | rfl := List.mem_or_eq_of_mem_set listed
    · exact sound.locals v old
    · exact (popped eq).1
  | ldint => exact ⟨same, kept _ _, pushed (Heap.isFree_of_ne (by simp))⟩
  | ldstr => exact ⟨same, kept _ _, pushed (Heap.isFree_of_ne (by simp))⟩
  | ldnull => exact ⟨same, kept _ _, pushed (Heap.isFree_of_ne (by simp))⟩
  | @ldfld field n object rest eq there =>
    refine ⟨same, kept _ _, fun v listed => ?_⟩
    obtain rfl | listed := List.mem_cons.1 listed
    · exact account.ordered.contents n object field.name there (apart field rfl)
    · exact (popped eq).2 v listed
  | @stfld field content n object rest eq there =>
    have changed := account.setField (n := n) (apart field rfl) (popped eq).1
    have below := (popped eq).2
    refine ⟨changed, (kept rest _).later changed.2, fun v listed => changed.2.free v ?_⟩
    exact below v (List.mem_cons_of_mem _ listed)
  | dup eq => exact ⟨same, kept _ _, eq ▸ pushed (popped eq).1⟩
  | pop eq => exact ⟨same, kept _ _, (popped eq).2⟩
  | always => exact ⟨same, kept _ _, stack⟩
  | taken eq => exact ⟨same, kept _ _, (popped eq).2⟩
  | passed eq => exact ⟨same, kept _ _, (popped eq).2⟩

end Frame.Executes

/-! ## At rest -/

section Staged

variable (staging : Staging p.module w role) (known : ∃ d, HasBody p.module f.key d f.body)
  (here : f.current? = some i)

include staging here

section Known

include known

/-- What an instruction with a role leads to. -/
theorem Frame.leads_next : f.position < f.body.lines.length ∧
    (f.part role).leads (f.partAt role (f.position + 1)) = true := by
  obtain ⟨name, line⟩ := Frame.current?_eq_some.1 here
  have inside : f.position < f.body.lines.length := (List.getElem?_eq_some_iff.1 line).1
  exact ⟨inside, Frame.leads_partAt staging known inside⟩

/-- From an ordinary place, an instruction leads to where nothing is under way. -/
theorem Frame.Rests.next (rests : f.Rests w role events h) (ordinary : f.part role ≠ .matched ∧
      f.part role ≠ .prologueNew ∧ f.part role ≠ .releaseThis) :
    (f.partAt role (f.position + 1)).isCalm = true ∨
      f.partAt role (f.position + 1) = .released ∧ ∃ o, f.receiver? = some o ∧ Over w events h o := by
  have leads := (Frame.leads_next staging known here).2
  obtain calm | ⟨released, finished⟩ := rests
  · left
    revert calm leads ordinary
    cases f.part role <;> cases f.partAt role (f.position + 1) <;> decide
  · rw [released] at leads
    by_cases again : f.partAt role (f.position + 1) = .released
    · exact .inr ⟨again, finished⟩
    · left
      revert leads again
      cases f.partAt role (f.position + 1) <;> decide

end Known

/-- A body that has made a call waits for its end. -/
theorem Frame.Sound.waits (sound : f.Sound p.module w h none) {stack : List Value} {takes : Bool}
    (free : ∀ v ∈ stack, h.IsFree w.field none v)
    (goesOn : (f.continueWith stack).Rests w role events h ∨
      (f.continueWith stack).part role = .registerThis ∧ takes = true)
    (waits : Waits p.module w role events h none callers owed) :
    Waits p.module w role events h none (.frame (f.continueWith stack) takes :: callers) owed := by
  have inside := (Frame.leads_next staging sound.known here).1
  have site := Frame.isPastSite_iff_registerThis (f := f.continueWith stack) staging sound.known
    (Nat.succ_pos f.position) inside
  exact .frame (sound.move stack (f.position + 1)) free goesOn site waits

end Staged

/-- The release of a container in a tracking field is looked up in the class of containers, if its
receiver is an object. -/
theorem Account.startClass_release (account : Account w due events h none calm owed) {o : Nat}
    {object : Object} (there : h.get? o = some object) {release : MethodRef}
    (type : release.declaring.definitionName = containerName) :
    (∃ e, p.startClass h ⟨release, [object.field w.field], true⟩ = .error e) ∨
      p.startClass h ⟨release, [object.field w.field], true⟩ = .ok containerName := by
  unfold startClass
  split
  · split
    · exact .inl ⟨_, rfl⟩
    · exact .inl ⟨_, rfl⟩
    · next content _ _ args =>
      cases args
      cases found : h.object (object.field w.field) with
      | error e => exact .inl ⟨e, rfl⟩
      | ok known =>
        obtain ⟨n, container⟩ := known
        obtain ⟨same, there'⟩ := Heap.object_eq_ok.1 found
        obtain ⟨_, _, _, there'', className, _⟩ :=
          account.ordered.tracked o n ⟨object, there, same⟩
        rw [there'] at there''
        cases there''
        exact .inr (congrArg Except.ok className)
  · exact .inr (congrArg Except.ok type)

section Steps

variable (staging : Staging p.module w role) (library : p.natives = Reactive.natives)
  {memory₀ : Memory}

include staging

/-- The final exit of the teardown comes after the release. -/
theorem leave_keeps {result : Option Value} (sound : f.Sound p.module w memory.heap none)
    (stack : ∀ v ∈ f.stack, memory.heap.IsFree w.field none v)
    (rests : f.Rests w role events memory.heap)
    (waits : Waits p.module w role events memory.heap none callers owed)
    (account : Account w due events memory.heap none calm owed) (here : f.current? = some .ret)
    (executes : f.Executes memory.heap .ret (.leave result)) :
    (resume memory result callers).Keeps p.module w due role
      (events ++ emitted w ⟨memory₀, .frame f, callers⟩) := by
  have free : ∀ v, result = some v → memory.heap.IsFree w.field none v := by
    intro v same
    cases executes with
    | ret value none =>
      cases returns : f.returnsValue with
      | true =>
        obtain ⟨v', rest, eq, same'⟩ := value returns
        rw [same] at same'
        cases same'
        exact stack v (eq ▸ List.mem_cons_self)
      | false =>
        rw [none returns] at same
        cases same
  have left : Account w due (events ++ f.leaves w) memory.heap none calm owed ∧
      Later w events memory.heap none (events ++ f.leaves w) memory.heap none := by
    have silent : Account w due (events ++ []) memory.heap none calm owed ∧
        Later w events memory.heap none (events ++ []) memory.heap none := by
      rw [List.append_nil]
      exact ⟨account, .refl w events memory.heap none⟩
    unfold Frame.leaves
    split
    · next o _ receiver =>
      split
      · next last =>
        obtain ⟨teardown, final⟩ := last
        obtain ⟨d, known⟩ := sound.known
        obtain ⟨exit, line⟩ := Frame.current?_eq_some.1 here
        have exits : f.body.finalExit? = some exit := by
          rw [Body.finalExit?_eq_some, List.getLast?_eq_getElem?, ← line]
          congr 1
          have length : f.body.lines.length = f.position + 1 := final.symm
          omega
        have released : f.part role = .released := by
          rw [Frame.part, Frame.partAt_of_line line, teardown]
          exact staging.exit (teardown ▸ known) exits
        obtain calm | ⟨_, o', receiver', finished⟩ := rests
        · rw [released] at calm
          cases calm
        · rw [receiver] at receiver'
          cases receiver'
          exact account.left finished
      · exact silent
    · exact silent
  rw [emitted_ret here executes, ← List.append_assoc]
  exact resume_keeps left.1 (waits.later left.2) free

include library

/-- An instruction with an ordinary role. -/
theorem ordinary_keeps (sound : f.Sound p.module w memory.heap none)
    (stack : ∀ v ∈ f.stack, memory.heap.IsFree w.field none v)
    (rests : f.Rests w role events memory.heap)
    (waits : Waits p.module w role events memory.heap none callers owed)
    (account : Account w due events memory.heap none calm owed) (here : f.current? = some i)
    (apart : ∀ field, i.accessed? = some field → field.name ≠ w.field)
    (ordinary : f.part role ≠ .matched ∧ f.part role ≠ .prologueNew ∧ f.part role ≠ .releaseThis)
    (executes : f.Executes memory.heap i effect) :
    (p.act memory callers effect).Keeps p.module w due role
      (events ++ emitted w ⟨memory₀, .frame f, callers⟩) := by
  have onward := rests.next staging sound.known here ordinary
  have silent (stays : i.isRet = false) : emitted w ⟨memory₀, .frame f, callers⟩ = [] :=
    emitted_eq_nil here stays fun field same => apart field (same ▸ rfl)
  have dropped (count : Nat) : ∀ v ∈ f.stack.drop count, memory.heap.IsFree w.field none v :=
    fun v listed => stack v (List.mem_of_mem_drop listed)
  have taken (count : Nat) : ∀ v ∈ (f.stack.take count).reverse,
      memory.heap.IsFree w.field none v :=
    fun v listed => stack v (List.mem_of_mem_take (List.mem_reverse.1 listed))
  cases effect with
  | next f' h' =>
    have stays : i.isRet = false := by
      cases executes <;> rfl
    obtain ⟨⟨account', later⟩, sound', stack'⟩ :=
      executes.next_account sound stack account apart
    obtain ⟨key, body, args, position⟩ := executes.next_position
    have rests' : f'.Rests w role events memory.heap := by
      have part (q : Nat) : f'.partAt role q = f.partAt role q := by
        rw [Frame.partAt, Frame.partAt, key, body]
      unfold Frame.Rests Frame.part Frame.receiver?
      rw [part, args]
      obtain next | ⟨t, target, found⟩ := position
      · rw [next]
        exact onward
      · refine .inl ?_
        rw [Role.isCalm, Frame.isOpen_jump staging sound.known here target found]
        rfl
    rw [silent stays, List.append_nil]
    exact fun _ => ⟨none, calm, owed, .resting sound' stack' (rests'.later later)
      (waits.later later), account'⟩
  | construct f' className args =>
    cases executes with
    | newobj enough =>
      rw [silent rfl, List.append_nil]
      exact construct_keeps staging library account
        (sound.waits staging here (dropped _) (.inl onward) waits) (taken _)
  | invoke f' c =>
    cases executes with
    | invoke enough =>
      rw [silent rfl, List.append_nil]
      exact invoke_keeps staging library account
        (sound.waits staging here (dropped _) (.inl onward) waits) (taken _)
  | leave result =>
    cases executes with
    | ret value none =>
      exact leave_keeps staging sound stack rests waits account here (.ret value none)

/-- A handle call; its result will be registered. -/
theorem matched_keeps (sound : f.Sound p.module w memory.heap none)
    (stack : ∀ v ∈ f.stack, memory.heap.IsFree w.field none v) (part : f.part role = .matched)
    (waits : Waits p.module w role events memory.heap none callers owed)
    (account : Account w due events memory.heap none calm owed) (here : f.current? = some i)
    (executes : f.Executes memory.heap i effect) :
    (p.act memory callers effect).Keeps p.module w due role
      (events ++ emitted w ⟨memory₀, .frame f, callers⟩) := by
  have plays := Frame.plays_part staging sound.known here
  rw [part] at plays
  obtain ⟨method, isVirtual, rfl, returns⟩ := plays
  have next := (Frame.leads_next staging sound.known here).2
  rw [part] at next
  have registers : f.partAt role (f.position + 1) = .registerThis := of_decide_eq_true next
  cases executes with
  | invoke enough =>
    rw [emitted_eq_nil here rfl (fun _ impossible => by cases impossible), List.append_nil]
    refine invoke_keeps staging library account (sound.waits staging here
      (fun v listed => stack v (List.mem_of_mem_drop listed)) (.inr ⟨registers, returns⟩) waits)
      fun v listed => stack v ?_
    exact List.mem_of_mem_take (List.mem_reverse.1 listed)

/-- A prologue makes a container; nothing names it yet. -/
theorem prologueNew_keeps (sound : f.Sound p.module w memory.heap none)
    (stack : ∀ v ∈ f.stack, memory.heap.IsFree w.field none v) (part : f.part role = .prologueNew)
    (waits : Waits p.module w role events memory.heap none callers owed)
    (account : Account w due events memory.heap none calm owed) (here : f.current? = some i)
    (executes : f.Executes memory.heap i effect) :
    (p.act memory callers effect).Keeps p.module w due role
      (events ++ emitted w ⟨memory₀, .frame f, callers⟩) := by
  have plays := Frame.plays_part staging sound.known here
  rw [part] at plays
  obtain ⟨constructor, rfl, noParams, named⟩ := plays
  have next := (Frame.leads_next staging sound.known here).2
  rw [part] at next
  have stores : f.partAt role (f.position + 1) = .prologueStore := of_decide_eq_true next
  have known : p.natives (nativeName containerName constructorName) = some containerConstructor := by
    rw [library]
    rfl
  have apart : (f.continueWith f.stack).isPastSite w 1 = false := by
    have site := Frame.isPastSite_iff_registerThis (f := f.continueWith f.stack) staging sound.known
      (Nat.succ_pos f.position) (Frame.leads_next staging sound.known here).1
    cases past : (f.continueWith f.stack).isPastSite w 1 with
    | false => rfl
    | true =>
      have registers := site.1 past
      rw [show (f.continueWith f.stack).part role = .prologueStore from stores] at registers
      cases registers
  have blank : ({ className := containerName, native := .container [] false } : Object).fields =
      [] := rfl
  obtain ⟨account', later⟩ := account.alloc (some (memory.heap.objects.size + 1)) blank
    (fun entries released same => by cases same; rfl) (fun _ impossible => by cases impossible)
    (.inr ⟨rfl, rfl, rfl⟩)
  have fresh : (memory.heap.alloc { className := containerName }).1.object
      (.object (memory.heap.objects.size + 1)) =
        .ok (memory.heap.objects.size + 1, { className := containerName }) :=
    Heap.object_eq_ok.2 ⟨rfl, by rw [Heap.get?_alloc, if_pos rfl]⟩
  have made : containerConstructor (memory.heap.alloc { className := containerName }).1
      [.object (memory.heap.objects.size + 1)] =
        ((memory.heap.alloc { className := containerName, native := .container [] false }).1,
          releaseAll none []) := by
    rw [containerConstructor_cons, fresh]
    dsimp only
    rw [Heap.modify_alloc]
    rfl
  have constructed (callers : List Caller) :
      p.construct memory callers containerName [] = runNative memory
        (.constructing (.object (memory.heap.objects.size + 1)) :: callers)
        ((memory.heap.alloc { className := containerName, native := .container [] false }).1,
          releaseAll none []) := by
    rw [← made]
    unfold construct
    dsimp only
    rw [show ([] : List Value).length = 0 from rfl, lookup_native known]
    rfl
  cases executes with
  | newobj enough =>
    rw [emitted_eq_nil here rfl (fun _ impossible => by cases impossible), List.append_nil]
    show (p.construct memory _ _ _).Keeps _ _ _ _ _
    rw [named, noParams, show (f.stack.take ([] : List TypeRef).length).reverse = [] from rfl,
      constructed]
    exact fun _ => ⟨_, calm, owed, .making ((sound.move f.stack (f.position + 1)).later later)
      (fun v listed => later.free v (stack v listed)) stores apart (waits.later later), account'⟩

omit library in
/-- A release loads the object first. -/
theorem releaseThis_keeps (sound : f.Sound p.module w memory.heap none)
    (stack : ∀ v ∈ f.stack, memory.heap.IsFree w.field none v) (part : f.part role = .releaseThis)
    (waits : Waits p.module w role events memory.heap none callers owed)
    (account : Account w due events memory.heap none calm owed) (here : f.current? = some i)
    (executes : f.Executes memory.heap i effect) :
    (p.act memory callers effect).Keeps p.module w due role
      (events ++ emitted w ⟨memory₀, .frame f, callers⟩) := by
  have plays := Frame.plays_part staging sound.known here
  rw [part] at plays
  cases plays
  have next := (Frame.leads_next staging sound.known here).2
  rw [part] at next
  have loads : f.partAt role (f.position + 1) = .releaseLoad := of_decide_eq_true next
  cases executes with
  | @ldarg _ this there =>
    rw [emitted_eq_nil here rfl (fun _ impossible => by cases impossible), List.append_nil]
    refine fun _ => ⟨none, calm, owed, .releaseLoad (sound.move _ _) rfl ?_ (fun v listed => ?_)
      loads waits, account⟩
    · exact List.head?_eq_getElem?.trans there
    · obtain rfl | listed := List.mem_cons.1 listed
      · exact sound.args _ (List.mem_of_getElem? there)
      · exact stack v listed

/-- A body at rest executes an instruction. -/
theorem resting_keeps (sound : f.Sound p.module w memory.heap none)
    (stack : ∀ v ∈ f.stack, memory.heap.IsFree w.field none v)
    (rests : f.Rests w role events memory.heap)
    (waits : Waits p.module w role events memory.heap none callers owed)
    (account : Account w due events memory.heap none calm owed) (here : f.current? = some i)
    (executes : f.Executes memory.heap i effect) :
    (p.act memory callers effect).Keeps p.module w due role
      (events ++ emitted w ⟨memory₀, .frame f, callers⟩) := by
  by_cases matched : f.part role = .matched
  · exact matched_keeps staging library sound stack matched waits account here executes
  by_cases makes : f.part role = .prologueNew
  · exact prologueNew_keeps staging library sound stack makes waits account here executes
  by_cases releases : f.part role = .releaseThis
  · exact releaseThis_keeps staging sound stack releases waits account here executes
  refine ordinary_keeps staging library sound stack rests waits account here ?_
    ⟨matched, makes, releases⟩ executes
  -- What is left is plain, released, or the first instruction of a prologue.
  have plays := Frame.plays_part staging sound.known here
  intro field accessed
  cases part : f.part role with
  | plain | released =>
    rw [part] at plays
    exact plays field accessed
  | prologueThis =>
    rw [part] at plays
    cases plays
    cases accessed
  | matched => exact absurd part matched
  | prologueNew => exact absurd part makes
  | releaseThis => exact absurd part releases
  | _ =>
    obtain calm | ⟨released, _⟩ := rests
    · rw [part] at calm
      cases calm
    · rw [part] at released
      cases released

/-! ## In the middle of a prologue -/

omit library in
/-- The container goes into the tracking field. -/
theorem storing_keeps {n : Nat} {rest : List Value} (sound : f.Sound p.module w memory.heap (some n))
    (stack : f.stack = .object n :: rest)
    (free : ∀ v ∈ rest, memory.heap.IsFree w.field (some n) v) (part : f.part role = .prologueStore)
    (waits : Waits p.module w role events memory.heap (some n) callers owed)
    (account : Account w due events memory.heap (some n) calm owed) (here : f.current? = some i)
    (executes : f.Executes memory.heap i effect) :
    (p.act memory callers effect).Keeps p.module w due role
      (events ++ emitted w ⟨memory₀, .frame f, callers⟩) := by
  have plays := Frame.plays_part staging sound.known here
  rw [part] at plays
  obtain ⟨field, rfl, named⟩ := plays
  have opened : (f.partAt role (f.position + 1)).isOpen = true := by
    have next := (Frame.leads_next staging sound.known here).2
    rw [part] at next
    exact next
  cases executes with
  | @stfld _ content o object rest' eq there =>
    rw [emitted_store here named eq]
    rw [stack] at eq
    cases eq
    obtain ⟨account', later⟩ := account.store there
    have rests : Frame.Rests w role (events ++ [.prologue o])
        (memory.heap.modify (·.setField w.field (.object n)) o) (f.continueWith rest') := by
      refine .inl ?_
      rw [Role.isCalm, show ((f.continueWith rest').part role).isOpen = true from opened]
      rfl
    show Progress.Keeps _ _ _ _ _ (.running ⟨{ memory with
      heap := memory.heap.modify (·.setField field.name (.object n)) o }, _, _⟩)
    rw [named]
    exact fun _ => ⟨none, calm, owed, .resting ((sound.move _ _).later later)
      (fun v listed => later.free v (free v (List.mem_cons_of_mem _ listed))) rests
      (waits.later later), account'⟩

/-! ## In the middle of a registration -/

omit library in
theorem registerThis_keeps {v : Value} {rest : List Value}
    (sound : f.Sound p.module w memory.heap none) (stack : f.stack = v :: rest)
    (free : ∀ v ∈ f.stack, memory.heap.IsFree w.field none v) (part : f.part role = .registerThis)
    (waits : Waits p.module w role events memory.heap none callers owed)
    (account : Account w due events memory.heap none (onto f.receiver? v) owed)
    (here : f.current? = some i) (executes : f.Executes memory.heap i effect) :
    (p.act memory callers effect).Keeps p.module w due role
      (events ++ emitted w ⟨memory₀, .frame f, callers⟩) := by
  have plays := Frame.plays_part staging sound.known here
  rw [part] at plays
  cases plays
  have next := (Frame.leads_next staging sound.known here).2
  rw [part] at next
  have loads : f.partAt role (f.position + 1) = .registerLoad := of_decide_eq_true next
  cases executes with
  | @ldarg _ this there =>
    rw [emitted_eq_nil here rfl (fun _ impossible => by cases impossible), List.append_nil]
    have pushed : this :: f.stack = this :: v :: rest := congrArg (this :: ·) stack
    refine fun _ => ⟨none, _, owed, .registerLoad
      (sound.move (this :: f.stack) (f.position + 1)) pushed
      (List.head?_eq_getElem?.trans there) (fun v' listed => ?_) loads waits, account⟩
    obtain rfl | listed := List.mem_cons.1 listed
    · exact sound.args _ (List.mem_of_getElem? there)
    · exact free v' listed

omit library in
/-- A registration reads the tracking field. -/
theorem registerLoad_keeps {this v : Value} {rest : List Value}
    (sound : f.Sound p.module w memory.heap none) (stack : f.stack = this :: v :: rest)
    (first : f.args.head? = some this) (free : ∀ v ∈ f.stack, memory.heap.IsFree w.field none v)
    (part : f.part role = .registerLoad)
    (waits : Waits p.module w role events memory.heap none callers owed)
    (account : Account w due events memory.heap none (onto f.receiver? v) owed)
    (here : f.current? = some i) (executes : f.Executes memory.heap i effect) :
    (p.act memory callers effect).Keeps p.module w due role
      (events ++ emitted w ⟨memory₀, .frame f, callers⟩) := by
  have plays := Frame.plays_part staging sound.known here
  rw [part] at plays
  obtain ⟨field, rfl, named⟩ := plays
  have next := (Frame.leads_next staging sound.known here).2
  rw [part] at next
  have calls : f.partAt role (f.position + 1) = .registerCall := of_decide_eq_true next
  cases executes with
  | @ldfld _ o object _ eq there =>
    rw [emitted_eq_nil here rfl (fun _ impossible => by cases impossible), List.append_nil]
    rw [stack] at eq
    cases eq
    have receiver := Frame.receiver?_eq_some.2 first
    rw [receiver] at account
    have loaded : object.field field.name :: v :: rest = object.field w.field :: v :: rest :=
      congrArg (object.field · :: v :: rest) named
    refine fun _ => ⟨none, _, owed, .registerCall
      (sound.move (object.field field.name :: v :: rest) (f.position + 1)) receiver there loaded
      (fun v' listed => free v' ?_) calls waits,
      account⟩
    rw [stack]
    exact List.mem_cons_of_mem _ listed

/-- A registration brings the value into the container. -/
theorem registerCall_keeps {o : Nat} {object : Object} {v : Value} {rest : List Value}
    (sound : f.Sound p.module w memory.heap none) (there : memory.heap.get? o = some object)
    (stack : f.stack = object.field w.field :: v :: rest)
    (free : ∀ v' ∈ v :: rest, memory.heap.IsFree w.field none v') (part : f.part role = .registerCall)
    (waits : Waits p.module w role events memory.heap none callers owed)
    (account : Account w due events memory.heap none (Account.only o v) owed)
    (here : f.current? = some i) (executes : f.Executes memory.heap i effect) :
    (p.act memory callers effect).Keeps p.module w due role
      (events ++ emitted w ⟨memory₀, .frame f, callers⟩) := by
  have plays := Frame.plays_part staging sound.known here
  rw [part] at plays
  obtain ⟨helper, rfl, arity, type, name⟩ := plays
  have opened : (f.partAt role (f.position + 1)).isOpen = true := by
    have next := (Frame.leads_next staging sound.known here).2
    rw [part] at next
    exact next
  have known : p.natives (nativeName helper.declaring.definitionName helper.name) =
      some trackWith := by
    rw [library, type, name]
    rfl
  cases executes with
  | invoke enough =>
    rw [emitted_eq_nil here rfl (fun _ impossible => by cases impossible), List.append_nil]
    have rests : Frame.Rests w role events memory.heap (f.continueWith rest) := by
      refine .inl ?_
      rw [Role.isCalm, show ((f.continueWith rest).part role).isOpen = true from opened]
      rfl
    have waits' : Waits p.module w role events memory.heap none
        (.frame (f.continueWith rest) helper.returns.isSome :: callers) owed :=
      sound.waits staging here (fun v' listed => free v' (List.mem_cons_of_mem v listed))
        (.inl rests) waits
    have args : (f.stack.take helper.arity).reverse = [v, object.field w.field] := by
      rw [arity, stack]
      rfl
    have below : f.stack.drop helper.arity = rest := by
      rw [arity, stack]
      rfl
    show (p.invoke memory (.frame (f.continueWith (f.stack.drop helper.arity))
      helper.returns.isSome :: callers) { method := helper, args := _, isVirtual := false }).Keeps
        _ _ _ _ _
    have start : p.startClass memory.heap ⟨helper, [v, object.field w.field], false⟩ =
      .ok helper.declaring.definitionName := startClass_static rfl
    rw [args, below, invoke_native start known]
    exact (account.performs_trackWith there (free v List.mem_cons_self)).keeps waits'

/-! ## In the middle of a release -/

omit library in
theorem releaseLoad_keeps {this : Value} {rest : List Value}
    (sound : f.Sound p.module w memory.heap none) (stack : f.stack = this :: rest)
    (first : f.args.head? = some this) (free : ∀ v ∈ f.stack, memory.heap.IsFree w.field none v)
    (part : f.part role = .releaseLoad)
    (waits : Waits p.module w role events memory.heap none callers owed)
    (account : Account w due events memory.heap none calm owed)
    (here : f.current? = some i) (executes : f.Executes memory.heap i effect) :
    (p.act memory callers effect).Keeps p.module w due role
      (events ++ emitted w ⟨memory₀, .frame f, callers⟩) := by
  have plays := Frame.plays_part staging sound.known here
  rw [part] at plays
  obtain ⟨field, rfl, named⟩ := plays
  have next := (Frame.leads_next staging sound.known here).2
  rw [part] at next
  have calls : f.partAt role (f.position + 1) = .releaseCall := of_decide_eq_true next
  cases executes with
  | @ldfld _ o object _ eq there =>
    rw [emitted_eq_nil here rfl (fun _ impossible => by cases impossible), List.append_nil]
    rw [stack] at eq
    cases eq
    have receiver := Frame.receiver?_eq_some.2 first
    have loaded : object.field field.name :: rest = object.field w.field :: rest :=
      congrArg (object.field · :: rest) named
    refine fun _ => ⟨none, _, owed, .releaseCall
      (sound.move (object.field field.name :: rest) (f.position + 1)) receiver there loaded
      (fun v' listed => free v' ?_) calls waits,
      account⟩
    rw [stack]
    exact List.mem_cons_of_mem _ listed

/-- A release ends with the container released. -/
theorem releaseCall_keeps {o : Nat} {object : Object} {rest : List Value}
    (sound : f.Sound p.module w memory.heap none) (receiver : f.receiver? = some o)
    (there : memory.heap.get? o = some object) (stack : f.stack = object.field w.field :: rest)
    (free : ∀ v ∈ rest, memory.heap.IsFree w.field none v) (part : f.part role = .releaseCall)
    (waits : Waits p.module w role events memory.heap none callers owed)
    (account : Account w due events memory.heap none calm owed)
    (here : f.current? = some i) (executes : f.Executes memory.heap i effect) :
    (p.act memory callers effect).Keeps p.module w due role
      (events ++ emitted w ⟨memory₀, .frame f, callers⟩) := by
  have plays := Frame.plays_part staging sound.known here
  rw [part] at plays
  obtain ⟨release, rfl, noParams, type, name⟩ := plays
  have next := (Frame.leads_next staging sound.known here).2
  rw [part] at next
  have released : f.partAt role (f.position + 1) = .released := of_decide_eq_true next
  have inside := (Frame.leads_next staging sound.known here).1
  have site := Frame.isPastSite_iff_registerThis (f := f.continueWith rest) staging sound.known
    (Nat.succ_pos f.position) inside
  have known : p.natives (nativeName containerName release.name) = some containerRelease := by
    rw [library, name]
    rfl
  cases executes with
  | invoke enough =>
    rw [emitted_eq_nil here rfl (fun _ impossible => by cases impossible), List.append_nil]
    show (p.invoke memory (.frame (f.continueWith (f.stack.drop release.arity))
      release.returns.isSome :: callers) { method := release, args := _, isVirtual := true }).Keeps
        _ _ _ _ _
    cases hasThis : release.hasThis with
    | false =>
      have arity : release.arity = 0 := by
        rw [MethodRef.arity, noParams, hasThis]
        rfl
      have start : p.startClass memory.heap ⟨release, [], true⟩ = .ok containerName := by
        unfold startClass
        rw [← type, hasThis]
        rfl
      rw [arity]
      show (p.invoke memory _ ⟨release, [], true⟩).Keeps _ _ _ _ _
      rw [invoke_native start known]
      exact fun alive => by cases alive
    | true =>
      have arity : release.arity = 1 := by
        rw [MethodRef.arity, noParams, hasThis]
        rfl
      have args : (f.stack.take release.arity).reverse = [object.field w.field] := by
        rw [arity, stack]
        rfl
      have below : f.stack.drop release.arity = rest := by
        rw [arity, stack]
        rfl
      rw [args, below]
      obtain ⟨e, failed⟩ | start := account.startClass_release (p := p) there type
      · rw [invoke, Program.callee, failed]
        exact keeps_fail _ _ _ _
      obtain ⟨performs, ended⟩ := account.performs_containerRelease there []
      rw [invoke_native start known]
      refine performs.keeps_onward fun fine later => ?_
      have finished := ended.resolve_left (not_exists.2 fine)
      exact .frame ((sound.move rest (f.position + 1)).later later)
        (fun v listed => later.free v (free v listed)) (.inl (.inr ⟨released, o, receiver, finished⟩))
        site (waits.later later)

/-! ## One step -/

/-- One step keeps the account. -/
theorem step_keeps (dispatches : p.Dispatches) {s : State} {flight : Option Nat}
    {inflight : Nat → List Value}
    (flow : Flow p.module w role events s.memory.heap s.active s.callers flight inflight owed)
    (account : Account w due events s.memory.heap flight inflight owed) :
    (p.step s).Keeps p.module w due role (events ++ emitted w s) := by
  obtain ⟨memory, active, callers⟩ := s
  dsimp only at flow account
  -- A body takes the same step whatever it is about to do.
  have frame {f : Frame} (each : ∀ i effect, f.current? = some i →
      f.Executes memory.heap i effect →
        (p.act { memory with steps := memory.steps + 1 } callers effect).Keeps p.module w due role
          (events ++ emitted w ⟨memory, .frame f, callers⟩)) :
      (p.step ⟨memory, .frame f, callers⟩).Keeps p.module w due role
        (events ++ emitted w ⟨memory, .frame f, callers⟩) := stepFrame_keeps each
  cases flow with
  | resting sound stack rests waits =>
    exact frame fun i effect here executes =>
      resting_keeps staging library sound stack rests waits account here executes
  | @making n f callers _ sound stack part past waits =>
    have silent : emitted w ⟨memory, .native (releaseAll none []),
        .constructing (.object n) :: .frame f true :: callers⟩ = [] := rfl
    rw [silent, List.append_nil]
    exact fun _ => ⟨some n, calm, owed, .handing sound stack part past waits, account⟩
  | @handing n f callers _ sound stack part past waits =>
    have silent : emitted w ⟨memory, .native (releaseAll (some (.object n)) []),
        .frame f true :: callers⟩ = [] := by
      show [] ++ handed w (some (.object n)) (.frame f true :: callers) = []
      simp only [handed, past]
      cases f.receiver? <;> rfl
    rw [silent, List.append_nil]
    exact fun _ => ⟨some n, calm, owed, .storing (sound.move _ f.position) rfl stack part waits,
      account⟩
  | storing sound stack free part waits =>
    exact frame fun i effect here executes =>
      storing_keeps staging sound stack free part waits account here executes
  | registerThis sound stack free part waits =>
    exact frame fun i effect here executes =>
      registerThis_keeps staging sound stack free part waits account here executes
  | registerLoad sound stack first free part waits =>
    exact frame fun i effect here executes =>
      registerLoad_keeps staging sound stack first free part waits account here executes
  | registerCall sound receiver there stack free part waits =>
    exact frame fun i effect here executes =>
      registerCall_keeps staging library sound there stack free part waits account here executes
  | releaseLoad sound stack first free part waits =>
    exact frame fun i effect here executes =>
      releaseLoad_keeps staging sound stack first free part waits account here executes
  | releaseCall sound receiver there stack free part waits =>
    exact frame fun i effect here executes => releaseCall_keeps staging library sound receiver
      there stack free part waits account here executes
  | @working result rest callers owed resultFree restFree waits =>
    cases rest with
    | nil => exact resume_keeps account waits resultFree
    | cons v rest =>
      have silent : emitted w ⟨memory, .native (releaseAll result (v :: rest)), callers⟩ = [] := rfl
      rw [silent, List.append_nil]
      exact release_keeps staging library dispatches account waits resultFree
        (restFree v List.mem_cons_self) fun v' listed => restFree v' (List.mem_cons_of_mem v listed)

end Steps

end ReleaseWeaver.Machine
