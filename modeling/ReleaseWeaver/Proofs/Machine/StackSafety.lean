import ReleaseWeaver.Machine.Reactive
import ReleaseWeaver.Proofs.Machine.Exec
import ReleaseWeaver.Sample.Metadata

/-
  The stack check is sound for the machine. In a module that passes it every body has a depth
  map; an activation is ready when its stack is as deep as the map says before its next
  instruction. A ready activation finds its operands, its branches and its next instruction, and
  what follows is ready again, also for the bodies that wait for a call. Main statement: no call
  by name and no construction ends for want of an operand, in a bad branch or past the end of a
  body, and no instruction at any depth of calls raises such a fault.
-/

namespace ReleaseWeaver.Machine

/-- The faults of a body that does not keep its stack or its flow in order. -/
def ExecError.isFlowFault : ExecError → Bool
  | .stackUnderflow _ | .badBranch | .fellOffEnd _ => true
  | _ => false

def Outcome.isFlowFault : Outcome → Bool
  | .error e => e.isFlowFault
  | .ok _ => false

/-! ## Activations -/

namespace Frame

/-- The stack, once `extra` values are on it, is as deep as a depth map of the body says. -/
def Ready (f : Frame) (extra : Nat) : Prop :=
  f.body.Closed ∧ ∃ depth, f.body.DepthMap f.returnsValue depth ∧
    ∃ l, f.body.lines[f.position]? = some l ∧ depth l.1 = some (f.stack.length + extra)

variable {f : Frame} {i : Instr}

theorem start_ready {key : MethodKey} {d : MethodDef} {b : Body} {args : List Value}
    (typed : b.WellStacked d.returns.isSome) : (start key d b args).Ready 0 := by
  obtain ⟨closed, depth, map⟩ := typed
  obtain ⟨l, first, zero⟩ := map.entry
  exact ⟨closed, depth, map, l, by rw [← first]; exact List.head?_eq_getElem?.symm, zero⟩

theorem Ready.current (ready : f.Ready 0) : ∃ i, f.current? = some i := by
  obtain ⟨_, _, _, l, line, _⟩ := ready
  exact ⟨l.2, by rw [current?, line]; rfl⟩

theorem Ready.fits (ready : f.Ready 0) (here : f.current? = some i) :
    i.Fits f.returnsValue f.stack.length := by
  obtain ⟨_, depth, map, l, line, known⟩ := ready
  rw [current?, line] at here
  cases here
  exact map.fits l (List.mem_of_getElem? line) _ known

/-- Falling through leads to an activation that is ready for the depth left behind. -/
theorem Ready.continueWith (ready : f.Ready 0) (here : f.current? = some i)
    (falls : i.fallsThrough = true) {stack : List Value} {extra : Nat}
    (deep : stack.length + extra = i.depthAfter f.returnsValue f.stack.length) :
    (f.continueWith stack).Ready extra := by
  obtain ⟨closed, depth, map, l, line, known⟩ := ready
  rw [current?, line] at here
  cases here
  obtain ⟨inside, eq⟩ := List.getElem?_eq_some_iff.1 line
  have bound : f.position + 1 < f.body.lines.length := by
    by_contra beyond
    have last : f.body.lines.getLast? = some l := by
      rw [List.getLast?_eq_getElem?, show f.body.lines.length - 1 = f.position by omega, line]
    rw [closed.ends l last] at falls
    cases falls
  have next := (List.isChain_iff_getElem.1 map.follows) f.position bound
  rw [eq] at next
  refine ⟨closed, depth, map, _, List.getElem?_eq_getElem bound, ?_⟩
  rw [next falls _ known, Nat.add_zero]
  exact congrArg some deep.symm

/-- A branch finds its target, and the activation there is ready. -/
theorem Ready.jump (ready : f.Ready 0) (here : f.current? = some i) {t : Handle}
    (target : i.target? = some t) (stack : List Value)
    (deep : stack.length = i.depthAfter f.returnsValue f.stack.length) :
    ∃ f', f.jump stack t = .ok f' ∧ f'.Ready 0 := by
  obtain ⟨closed, depth, map, l, line, known⟩ := ready
  rw [current?, line] at here
  cases here
  have listed := List.mem_of_getElem? line
  obtain ⟨p, found⟩ := Body.position?_isSome.2 (closed.targets l listed t target)
  obtain ⟨i', line'⟩ := Body.position?_eq_some.1 found
  refine ⟨{ f with stack, position := p }, by simp only [Frame.jump, found], closed, depth, map,
    (t, i'), line', ?_⟩
  rw [map.jumps l listed t target _ known, Nat.add_zero]
  exact congrArg some deep.symm

theorem Ready.accept {takesResult : Bool} (ready : f.Ready takesResult.toNat)
    (result : Option Value) : (f.accept takesResult result).Ready 0 := by
  obtain ⟨closed, depth, map, l, line, known⟩ := ready
  cases takesResult with
  | false => exact ⟨closed, depth, map, l, line, known⟩
  | true => exact ⟨closed, depth, map, l, line, known⟩

end Frame

/-! ## One instruction -/

/-- What an instruction comes to leaves activations that are ready. -/
def Effect.Ready : Effect → Prop
  | .next f _ => f.Ready 0
  | .construct f _ _ => f.Ready 1
  | .invoke f c => f.Ready c.method.returns.isSome.toNat ∧ c.args.length = c.method.arity
  | .leave _ => True

/-- An instruction raises no flow fault, and what it comes to is ready. -/
def Effect.Safe : Except ExecError Effect → Prop
  | .ok effect => effect.Ready
  | .error e => e.isFlowFault = false

theorem Heap.object_safe {h : Heap} {v : Value} {e : ExecError} (failed : h.object v = .error e) :
    e.isFlowFault = false := by
  unfold Heap.object at failed
  split at failed
  · split at failed <;> cases failed
    rfl
  · cases failed
    rfl
  · cases failed
    rfl

namespace Frame

variable {f : Frame} {h : Heap} {i : Instr}

theorem safe_field {v : Value} {name : String} {next : Value → Effect}
    (ready : ∀ content, (next content).Ready) : Effect.Safe ((h.field v name).map next) := by
  unfold Heap.field
  cases found : h.object v with
  | error e => exact Heap.object_safe found
  | ok o => exact ready _

theorem safe_setField {v content : Value} {name : String} {next : Heap → Effect}
    (ready : ∀ h', (next h').Ready) : Effect.Safe ((h.setField v name content).map next) := by
  unfold Heap.setField
  cases found : h.object v with
  | error e => exact Heap.object_safe found
  | ok o => exact ready _

theorem Ready.continueWith_of (ready : f.Ready 0) (here : f.current? = some i)
    (falls : i.fallsThrough = true) (stack : List Value) {extra taken put : Nat}
    (pops : i.pops f.returnsValue = taken) (pushes : i.pushes = put)
    (deep : stack.length + extra = f.stack.length - taken + put) :
    (f.continueWith stack).Ready extra :=
  ready.continueWith here falls (by rw [Instr.depthAfter, pops, pushes, deep])

theorem Ready.cons (ready : f.Ready 0) (here : f.current? = some i)
    (takes : 0 < i.pops f.returnsValue) : ∃ v rest, f.stack = v :: rest :=
  List.exists_cons_of_length_pos (Nat.lt_of_lt_of_le takes (ready.fits here).1)

theorem exec_safe (ready : f.Ready 0) (here : f.current? = some i) :
    Effect.Safe (f.exec h i) := by
  have fits := ready.fits here
  -- An instruction that takes nothing and pushes one value.
  have push (falls : i.fallsThrough = true) (none : i.pops f.returnsValue = 0)
      (one : i.pushes = 1) (v : Value) : (f.continueWith (v :: f.stack)).Ready 0 :=
    ready.continueWith_of here falls _ none one rfl
  cases i with
  | nop => exact ready.continueWith_of here rfl _ rfl rfl rfl
  | ldint value => exact push rfl rfl rfl _
  | ldstr value => exact push rfl rfl rfl _
  | ldnull => exact push rfl rfl rfl _
  | ldarg index =>
    rw [exec_ldarg]
    cases f.args[index.toNat]? with
    | none => exact rfl
    | some v => exact push rfl rfl rfl v
  | ldloc index =>
    rw [exec_ldloc]
    cases f.locals[index.toNat]? with
    | none => exact rfl
    | some v => exact push rfl rfl rfl v
  | stloc index =>
    obtain ⟨v, rest, stack⟩ := ready.cons here Nat.one_pos
    rw [exec_stloc stack]
    split
    · exact ready.continueWith_of here rfl rest rfl rfl (by rw [stack]; rfl)
    · exact rfl
  | ldfld field =>
    obtain ⟨v, rest, stack⟩ := ready.cons here Nat.one_pos
    by_cases null : v = .null
    · rw [exec_ldfld_null (null ▸ stack)]
      exact rfl
    · rw [exec_ldfld stack null]
      exact safe_field fun content =>
        ready.continueWith_of here rfl (content :: rest) rfl rfl (by rw [stack]; rfl)
  | stfld field =>
    obtain ⟨content, below, stack⟩ := ready.cons here Nat.two_pos
    have two : 2 ≤ f.stack.length := fits.1
    rw [stack] at two
    obtain ⟨v, rest, rfl⟩ := List.exists_cons_of_length_pos (Nat.le_of_succ_le_succ two)
    by_cases null : v = .null
    · rw [exec_stfld_null (null ▸ stack)]
      exact rfl
    · rw [exec_stfld stack null]
      exact safe_setField fun _ =>
        ready.continueWith_of here rfl rest rfl rfl (by rw [stack]; rfl)
  | newobj constructor =>
    have enough : constructor.params.length ≤ f.stack.length := fits.1
    rw [exec_newobj, take?, if_pos enough]
    exact ready.continueWith_of here rfl _ rfl rfl (by rw [List.length_drop]; rfl)
  | invoke method isVirtual =>
    have enough : method.arity ≤ f.stack.length := fits.1
    rw [exec_invoke, take?, if_pos enough]
    refine ⟨ready.continueWith_of here rfl _ rfl rfl (by rw [List.length_drop]; rfl), ?_⟩
    rw [List.length_reverse, List.length_take, Nat.min_eq_left enough]
  | dup =>
    obtain ⟨v, rest, stack⟩ := ready.cons here Nat.one_pos
    rw [exec_dup stack]
    exact ready.continueWith_of here rfl _ rfl rfl (by rw [stack]; rfl)
  | pop =>
    obtain ⟨v, rest, stack⟩ := ready.cons here Nat.one_pos
    rw [exec_pop stack]
    exact ready.continueWith_of here rfl _ rfl rfl (by rw [stack]; rfl)
  | branch on target =>
    by_cases always : on = .always
    · subst always
      obtain ⟨f', jumps, ready'⟩ := ready.jump here rfl f.stack rfl
      rw [exec_always, jumps]
      exact ready'
    · have one : (Instr.branch on target).pops f.returnsValue = 1 := by
        cases on with
        | always => exact absurd rfl always
        | _ => rfl
      have falls : (Instr.branch on target).fallsThrough = true := by
        cases on with
        | always => exact absurd rfl always
        | _ => rfl
      obtain ⟨v, rest, stack⟩ := ready.cons here (one ▸ Nat.one_pos)
      rw [exec_branch stack always]
      split
      · obtain ⟨f', jumps, ready'⟩ := ready.jump here rfl rest (by
          rw [Instr.depthAfter, one, stack]
          rfl)
        rw [jumps]
        exact ready'
      · exact ready.continueWith_of here falls _ one rfl (by rw [stack]; rfl)
  | ret =>
    have exactly := fits.2 rfl
    rw [exec_ret]
    split
    · next value =>
      rw [value] at exactly
      obtain ⟨v, rest, stack⟩ := List.exists_cons_of_length_pos
        (show 0 < f.stack.length by rw [exactly]; exact Nat.one_pos)
      rw [stack]
      exact trivial
    · exact trivial
  | throw =>
    obtain ⟨v, rest, stack⟩ := ready.cons here Nat.one_pos
    rw [exec_throw stack]
    exact rfl

end Frame

/-! ## Requests and native code -/

/-- A call that starts at the class of its receiver, and has none. -/
def Call.LacksReceiver (c : Call) : Prop :=
  c.isVirtual = true ∧ c.method.hasThis = true ∧ c.args = []

/-- What a request may come to: a flow fault only if it is a call that lacks its receiver. -/
def Request.MayEnd (request : Request) (outcome : Outcome) : Prop :=
  outcome.isFlowFault = false ∨
    ∃ c, request = .invoke c ∧ c.LacksReceiver ∧
      outcome = .error (.stackUnderflow c.method.fullName)

/-- Native code that raises no flow fault of its own: whatever its requests may come to, its end
is none. -/
inductive NativeWork.Sound : NativeWork → Prop where
  | done {outcome} : outcome.isFlowFault = false → Sound (.done outcome)
  | ask {request next} :
      (∀ h outcome, request.MayEnd outcome → Sound (next h outcome).2) → Sound (.ask request next)

/-- Whoever waits goes on soundly with any outcome that is no flow fault. -/
def Caller.Safe : Caller → Prop
  | .frame f takesResult => f.Ready takesResult.toNat
  | .constructing _ => True
  | .native next => ∀ h outcome, outcome.isFlowFault = false → (next h outcome).2.Sound

def Active.Safe : Active → Prop
  | .frame f => f.Ready 0
  | .native work => work.Sound
  | .failure e => e.isFlowFault = false

/-- No flow fault is on its way, and whatever waits or works is in order. -/
def Progress.Clean : Progress → Prop
  | .running s => s.active.Safe ∧ ∀ c ∈ s.callers, c.Safe
  | .finished _ outcome => outcome.isFlowFault = false

/-- A flow fault is the answer to native code that is sound with it. -/
def Progress.Answering (progress : Progress) : Prop :=
  ∃ m e next callers, progress = .running ⟨m, .failure e, .native next :: callers⟩ ∧
    (∀ h, (next h (.error e)).2.Sound) ∧ ∀ c ∈ callers, c.Safe

def Progress.Safe (progress : Progress) : Prop := progress.Clean ∨ progress.Answering

namespace Program

variable {p : Program} {m : Memory} {callers : List Caller}

/-- The bodies that a call can find are well stacked and the native code raises no flow fault of
its own. -/
structure SoundCode (p : Program) : Prop where
  bodies : ∀ {key d b}, HasBody p.module key d b → b.WellStacked d.returns.isSome
  natives : ∀ {name code}, p.natives name = some code → ∀ h args, (code h args).2.Sound

theorem resume_clean (waiting : ∀ c ∈ callers, c.Safe) (result : Option Value) :
    (resume m result callers).Clean := by
  cases callers with
  | nil => exact rfl
  | cons c callers =>
    have rest : ∀ c ∈ callers, c.Safe := fun c' listed => waiting c' (.tail _ listed)
    have first : c.Safe := waiting c (.head _)
    cases c with
    | frame f takesResult => exact ⟨Frame.Ready.accept first result, rest⟩
    | constructing this => exact ⟨.done rfl, rest⟩
    | native next => exact ⟨first m.heap (.ok result) rfl, rest⟩

theorem unwind_clean {e : ExecError} (harmless : e.isFlowFault = false)
    (waiting : ∀ c ∈ callers, c.Safe) : (unwind m e callers).Clean := by
  cases callers with
  | nil => exact harmless
  | cons c callers =>
    have rest : ∀ c ∈ callers, c.Safe := fun c' listed => waiting c' (.tail _ listed)
    have first : c.Safe := waiting c (.head _)
    cases c with
    | frame f takesResult => exact ⟨harmless, rest⟩
    | constructing this => exact ⟨harmless, rest⟩
    | native next => exact ⟨first m.heap (.error e) harmless, rest⟩

theorem enter_clean (sound : p.SoundCode) (waiting : ∀ c ∈ callers, c.Safe) {callee : Callee}
    (known : (∃ owner name code, callee = .native code ∧
        p.natives (nativeName owner name) = some code) ∨
      ∃ key d b, callee = .body key d b ∧ HasBody p.module key d b) (args : List Value) :
    (enter m callers callee args).Clean := by
  obtain ⟨_, _, code, rfl, known⟩ | ⟨key, d, b, rfl, listed⟩ := known
  · exact ⟨sound.natives known m.heap args, waiting⟩
  · exact ⟨Frame.start_ready (sound.bodies listed), waiting⟩

theorem enter_lookup_clean (sound : p.SoundCode) (waiting : ∀ c ∈ callers, c.Safe)
    {className name : String} {params : Nat} {callee : Callee}
    (found : p.lookup className name params = some callee) (args : List Value) :
    (enter m callers callee args).Clean := by
  refine enter_clean sound waiting ?_ args
  obtain ⟨owner, code, same, known⟩ | body := lookup_eq_some found
  · exact .inl ⟨owner, name, code, same, known⟩
  · exact .inr body

theorem construct_clean (sound : p.SoundCode) (waiting : ∀ c ∈ callers, c.Safe)
    (className : String) (args : List Value) : (p.construct m callers className args).Clean := by
  unfold construct
  dsimp only
  split
  · next callee found =>
    refine enter_lookup_clean sound (fun c listed => ?_) found _
    obtain rfl | listed := List.mem_cons.1 listed
    · exact trivial
    · exact waiting c listed
  · exact ⟨rfl, waiting⟩

theorem callOn_clean (sound : p.SoundCode) (waiting : ∀ c ∈ callers, c.Safe) (receiver : Value)
    (name : String) (args : List Value) : (p.callOn m callers receiver name args).Clean := by
  unfold callOn
  split
  · next e failed => exact ⟨Heap.object_safe failed, waiting⟩
  · split
    · next callee found => exact enter_lookup_clean sound waiting found _
    · exact ⟨rfl, waiting⟩

/-- The search for the code of a call fails with a flow fault only for want of a receiver. -/
theorem callee_fails {h : Heap} {c : Call} {e : ExecError} (failed : p.callee h c = .error e) :
    e.isFlowFault = false ∨ c.LacksReceiver ∧ e = .stackUnderflow c.method.fullName := by
  unfold Program.callee at failed
  split at failed
  · next e' start =>
    cases failed
    unfold startClass at start
    split at start
    · next dispatched =>
      rw [Bool.and_eq_true, Bool.and_eq_true] at dispatched
      split at start
      · next none =>
        cases start
        exact .inr ⟨⟨dispatched.1.1, dispatched.1.2, none⟩, rfl⟩
      · cases start
        exact .inl rfl
      · next receiver _ _ _ =>
        cases found : h.object receiver with
        | error e'' =>
          rw [found] at start
          cases start
          exact .inl (Heap.object_safe found)
        | ok o =>
          rw [found] at start
          cases start
    · cases start
  · split at failed
    · cases failed
    · cases failed
      exact .inl rfl

theorem invoke_clean (sound : p.SoundCode) (waiting : ∀ c ∈ callers, c.Safe) {c : Call}
    (received : ¬c.LacksReceiver) : (p.invoke m callers c).Clean := by
  unfold invoke
  split
  · next callee found =>
    obtain ⟨className, _, known⟩ := callee_eq_ok found
    exact enter_lookup_clean sound waiting known _
  · next e failed =>
    obtain harmless | ⟨lacking, _⟩ := callee_fails failed
    · exact ⟨harmless, waiting⟩
    · exact absurd lacking received

/-- What a request of native code that waits leads to. -/
theorem perform_safe (sound : p.SoundCode) (waiting : ∀ c ∈ callers, c.Safe) {request : Request}
    {next : Heap → Outcome → Heap × NativeWork}
    (goesOn : ∀ h outcome, request.MayEnd outcome → (next h outcome).2.Sound) :
    (p.perform m (.native next :: callers) request).Safe := by
  have waiting' : ∀ c ∈ Caller.native next :: callers, c.Safe := by
    intro c listed
    obtain rfl | listed := List.mem_cons.1 listed
    · exact fun h outcome harmless => goesOn h outcome (.inl harmless)
    · exact waiting c listed
  cases request with
  | construct className args => exact .inl (construct_clean sound waiting' className args)
  | callByName receiver name args => exact .inl (callOn_clean sound waiting' receiver name args)
  | invoke c =>
    by_cases lacking : c.LacksReceiver
    · show (p.invoke m (.native next :: callers) c).Safe
      unfold invoke
      split
      · next callee found =>
        obtain ⟨className, _, known⟩ := callee_eq_ok found
        exact .inl (enter_lookup_clean sound waiting' known _)
      · next e failed =>
        obtain harmless | ⟨_, underflow⟩ := callee_fails failed
        · exact .inl ⟨harmless, waiting'⟩
        · refine .inr ⟨m, e, next, callers, rfl, fun h => ?_, waiting⟩
          exact goesOn h _ (.inr ⟨c, rfl, lacking, by rw [underflow]⟩)
    · exact .inl (invoke_clean sound waiting' lacking)

/-- An activation that is ready raises no flow fault, whatever its instruction does. -/
theorem stepFrame_clean (sound : p.SoundCode) (waiting : ∀ c ∈ callers, c.Safe) {f : Frame}
    (ready : f.Ready 0) : (p.stepFrame m callers f).Clean := by
  obtain ⟨i, here⟩ := ready.current
  unfold stepFrame
  rw [here]
  dsimp only
  split
  · exact ⟨rfl, waiting⟩
  have safe := Frame.exec_safe (h := m.heap) ready here
  cases run : f.exec m.heap i with
  | error e =>
    rw [run] at safe
    exact ⟨safe, waiting⟩
  | ok effect =>
    rw [run] at safe
    cases effect with
    | next f' heap => exact ⟨safe, waiting⟩
    | leave result => exact resume_clean waiting result
    | construct f' className args =>
      refine construct_clean sound (fun c listed => ?_) className args
      obtain rfl | listed := List.mem_cons.1 listed
      · exact safe
      · exact waiting c listed
    | invoke f' c =>
      obtain ⟨ready', enough⟩ := safe
      refine invoke_clean sound (fun c' listed => ?_) fun ⟨_, hasThis, empty⟩ => ?_
      · obtain rfl | listed := List.mem_cons.1 listed
        · exact ready'
        · exact waiting c' listed
      · rw [empty, MethodRef.arity, hasThis] at enough
        simp at enough

theorem step_safe (sound : p.SoundCode) {s : State} (safe : (Progress.running s).Safe) :
    (p.step s).Safe := by
  obtain ⟨active, waiting⟩ | ⟨m, e, next, callers, same, goesOn, waiting⟩ := safe
  · unfold step
    split
    · next f frame =>
      rw [frame] at active
      exact .inl (stepFrame_clean sound waiting active)
    · exact .inl (resume_clean waiting _)
    · next e work =>
      rw [work] at active
      cases active with
      | done harmless => exact .inl (unwind_clean harmless waiting)
    · next request next work =>
      rw [work] at active
      cases active with
      | ask goesOn => exact perform_safe sound waiting goesOn
    · next e failure =>
      rw [failure] at active
      exact .inl (unwind_clean active waiting)
  · cases same
    exact .inl ⟨goesOn m.heap, waiting⟩

/-- The check covers the bodies that a call can find, if imported types have none. -/
theorem soundCode_of_verify (verified : p.module.verify = .ok ())
    (imported : ∀ t ∈ p.module.types, t.isLocal = false → ∀ d ∈ t.methods, d.body = none)
    (natives : ∀ name code, p.natives name = some code → ∀ h args, (code h args).2.Sound) :
    p.SoundCode where
  bodies := by
    intro key d b ⟨t, listed, keyed, body⟩
    have declared := List.mem_of_getElem? (TypeDef.mem_keyedMethods.1 keyed).2
    cases own : t.isLocal with
    | true => exact Module.verify_ok_iff.1 verified t listed own d declared b body
    | false =>
      rw [imported t listed own d declared] at body
      cases body
  natives := fun known => natives _ _ known

/-- A module that passes the stack check, with imported types that have no bodies and native code
that raises no flow fault of its own, never underflows a stack, branches badly or falls off the
end of a body: neither is a construction or a call by name such a fault, nor does an activation
at any depth of calls come to one. -/
theorem verified_raises_no_flowFault (verified : p.module.verify = .ok ())
    (imported : ∀ t ∈ p.module.types, t.isLocal = false → ∀ d ∈ t.methods, d.body = none)
    (natives : ∀ name code, p.natives name = some code → ∀ h args, (code h args).2.Sound)
    {start : Progress}
    (starts : (∃ className args, start = p.construct m [] className args) ∨
      ∃ receiver name args, start = p.callByName m receiver name args) :
    (∀ m' outcome, p.outcome? start = some (m', outcome) → outcome.isFlowFault = false) ∧
      ∀ count s f m' e callers', p.runFor count start = .running s → s.active = .frame f →
        p.step s = .running ⟨m', .failure e, callers'⟩ → e.isFlowFault = false := by
  have sound := soundCode_of_verify verified imported natives
  have nothing : ∀ c ∈ ([] : List Caller), c.Safe := fun c listed => absurd listed List.not_mem_nil
  have first : start.Safe := by
    obtain ⟨className, args, rfl⟩ | ⟨receiver, name, args, rfl⟩ := starts
    · exact .inl (construct_clean sound nothing className args)
    · exact .inl (callOn_clean sound nothing receiver name args)
  have all (count : Nat) : (p.runFor count start).Safe :=
    runFor_induction (fun s safe => step_safe sound safe) count first
  refine ⟨fun m' outcome ended => ?_, fun count s f m' e callers' reached frame failed => ?_⟩
  · obtain ⟨count, reached⟩ := outcome?_eq_some.1 ended
    have safe := all count
    rw [reached] at safe
    obtain clean | ⟨_, _, _, _, same, _⟩ := safe
    · exact clean
    · cases same
  · have safe := all count
    rw [reached] at safe
    obtain ⟨active, waiting⟩ | ⟨_, _, _, _, same, _⟩ := safe
    · rw [frame] at active
      have clean := stepFrame_clean (m := s.memory) sound waiting active
      rw [step, frame] at failed
      dsimp only at failed
      rw [failed] at clean
      exact clean.1
    · cases same
      cases frame

/-- A class with a method that calls itself in a loop as long as its argument is true. -/
def spinning : Program where
  module :=
    { name := "Spinning"
      types :=
        [{ Sample.imported "System" "Object" "mscorlib" with methods := [.constructor] },
          { ns := Sample.modelsNamespace
            name := "Spinner"
            base := some Sample.object
            methods :=
              [{ MethodDef.constructor with
                  body := some (.ofInstrs [.ldthis, .call Sample.objectConstructor, .ret]) },
                { name := "Spin"
                  params := [Sample.boolean]
                  body := some (.ofInstrs
                    [.ldarg 1, .branch .whenFalse (.nth 7), .ldthis, .ldarg 1,
                      .callvirt { declaring := Sample.model "Spinner", name := "Spin",
                                  params := [Sample.boolean] },
                      .branch .always (.nth 1), .ret]) }] }]
      names_nodup := by decide }
  natives := fun name =>
    if name = "System.Object::.ctor" then some Reactive.objectConstructor else none

theorem spinning_raises_no_flowFault :
    (∀ m' outcome,
      spinning.outcome? (spinning.construct {} [] "Sweep.Tests.Models.Spinner" []) =
        some (m', outcome) → outcome.isFlowFault = false) ∧
      ∀ count s f m' e callers',
        spinning.runFor count (spinning.construct {} [] "Sweep.Tests.Models.Spinner" []) =
          .running s → s.active = .frame f →
        spinning.step s = .running ⟨m', .failure e, callers'⟩ → e.isFlowFault = false := by
  refine verified_raises_no_flowFault (by decide +kernel) (by decide) ?_ (.inl ⟨_, _, rfl⟩)
  intro name code known h args
  have constructor : code = Reactive.objectConstructor := by
    have known' : (if name = "System.Object::.ctor" then some Reactive.objectConstructor
      else none) = some code := known
    split at known'
    · cases known'
      rfl
    · cases known'
  rw [constructor]
  exact .done rfl

end Program

end ReleaseWeaver.Machine
