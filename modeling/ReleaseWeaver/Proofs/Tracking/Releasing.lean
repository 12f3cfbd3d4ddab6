import ReleaseWeaver.Proofs.Tracking.Histories
import ReleaseWeaver.Proofs.Tracking.Relaying
import ReleaseWeaver.Proofs.Tracking.Steps

/-
  Who releases a tracked container. Native code releases a container only if it is called on it,
  and woven code has the container of an object at hand only in a registration and in a release.
  So a step that releases the container of an object is the release call of a teardown that runs
  on the object, and a teardown that comes to its final exit has the container released. From this
  follows what every state of a run knows of one container.
-/

namespace ReleaseWeaver.Machine

open Program Reactive

variable {p : Program} {w : Watch} {due : Nat → Prop} {role : MethodKey → Handle → Role}
  {events : List Event} {h : Heap} {m : Memory} {callers : List Caller} {n o : Nat}
  {entries : List Value} {flight : Option Nat} {inflight : Nat → List Value} {owed : List Value}

/-! ## Native code -/

namespace Heap

/-- The object is a container that is not released. -/
def Unreleased (h : Heap) (n : Nat) : Prop := ∃ entries, h.Holds n entries false

/-- The object is a released container. -/
def Released (h : Heap) (n : Nat) : Prop := ∃ entries, h.Holds n entries true

theorem Unreleased.alloc (unreleased : h.Unreleased n) (object : Object) :
    (h.alloc object).1.Unreleased n := by
  obtain ⟨entries, holds⟩ := unreleased
  exact ⟨entries, holds_alloc holds⟩

theorem Unreleased.setField (unreleased : h.Unreleased n) (name : String) (v : Value) (k : Nat) :
    (h.modify (·.setField name v) k).Unreleased n := by
  obtain ⟨entries, holds⟩ := unreleased
  exact ⟨entries, holds_setField.2 holds⟩

theorem Unreleased.setNative (unreleased : h.Unreleased n) {k : Nat} {native : Native}
    (same : k = n → ∃ entries, native = .container entries false) :
    (h.modify (Reactive.setNative native) k).Unreleased n := by
  obtain ⟨entries, object, there, was⟩ := unreleased
  unfold Unreleased Holds
  rw [get?_modify, there]
  by_cases here : n = k
  · obtain ⟨entries', is⟩ := same here.symm
    rw [if_pos here]
    exact ⟨entries', _, rfl, is⟩
  · rw [if_neg here]
    exact ⟨entries, object, rfl, was⟩

theorem Unreleased.lt (unreleased : h.Unreleased n) : n ≠ h.objects.size + 1 := by
  obtain ⟨_, _, there, _⟩ := unreleased
  have := le_of_get? there
  omega

end Heap

theorem unreleased_attempt_add (unreleased : h.Unreleased n) (container item : Value)
    (result : Option Value) : (attempt h (add h container item result)).1.Unreleased n := by
  obtain ⟨e, same⟩ | ⟨k, object, entries, released, _, there, native, same⟩ :=
    attempt_add h container item result
  · rw [same]
    exact unreleased
  · rw [same]
    refine unreleased.setNative fun here => ?_
    subst here
    obtain ⟨_, _, there', native'⟩ := unreleased
    rw [there] at there'
    cases there'
    rw [native] at native'
    cases native'
    exact ⟨_, rfl⟩

/-- The library releases a container only if it is called on it. -/
theorem unreleased_natives (unreleased : h.Unreleased n) {name : String} {code : NativeCode}
    (known : natives name = some code) {args : List Value}
    (apart : args.head? ≠ some (.object n)) : (code h args).1.Unreleased n := by
  obtain rfl | rfl | rfl | rfl | rfl | rfl | rfl | rfl := natives_cases known
  · exact unreleased
  · cases args with
    | nil => exact unreleased
    | cons v rest =>
      rw [containerConstructor_cons]
      split
      · exact unreleased.setNative fun _ => ⟨[], rfl⟩
      · exact unreleased
  · match args with
    | [] | [_] => exact unreleased
    | container :: item :: _ => exact unreleased_attempt_add unreleased container item none
  · cases args with
    | nil => exact unreleased
    | cons v rest =>
      obtain ⟨e, same⟩ | ⟨k, _, entries, released, rfl, _, _, same⟩ :=
        containerRelease_cons h v rest
      · rw [same]
        exact unreleased
      · rw [same]
        split
        · exact unreleased
        · exact unreleased.setNative fun here => absurd (here ▸ rfl) apart
  · match args with
    | [] | .null :: _ => exact unreleased
    | .int _ :: _ | .str _ :: _ | .object _ :: _ => exact unreleased.alloc _
  · exact unreleased.alloc _
  · match args with
    | [] | [_] | _ :: _ :: _ :: _ => exact unreleased
    | [handle, container] => exact unreleased_attempt_add unreleased container handle (some handle)
  · cases args with
    | nil => exact unreleased
    | cons v rest =>
      obtain ⟨e, same⟩ | ⟨k, _, rfl, _, ⟨_, _, same⟩ | ⟨_, same⟩⟩ :=
        subscriptionRelease_cons h v rest
      · rw [same]
        exact unreleased
      · rw [same]
        exact unreleased.setNative fun here => absurd (here ▸ rfl) apart
      · rw [same]
        exact unreleased

theorem unreleased_enter (library : p.natives = Reactive.natives)
    (unreleased : m.heap.Unreleased n) {className name : String} {params : Nat} {callee : Callee}
    (found : p.lookup className name params = some callee) {args : List Value}
    (apart : args.head? ≠ some (.object n)) : (enter m callers callee args).heap.Unreleased n := by
  obtain ⟨owner, code, rfl, known⟩ | ⟨key, d, b, rfl, _⟩ := lookup_eq_some found
  · rw [library] at known
    exact unreleased_natives unreleased known apart
  · exact unreleased

/-- A request that is not made of a container does not release it. -/
theorem unreleased_perform (library : p.natives = Reactive.natives)
    (unreleased : m.heap.Unreleased n) {request : Request}
    (apart : request.values.head? ≠ some (.object n)) :
    (p.perform m callers request).heap.Unreleased n := by
  cases request with
  | construct className args =>
    show (p.construct m callers className args).heap.Unreleased n
    have made := unreleased.alloc { className }
    unfold construct
    dsimp only
    split
    · next callee found =>
      refine unreleased_enter library made found fun same => ?_
      exact unreleased.lt (Value.object.inj (Option.some.inj same)).symm
    · exact made
  | callByName receiver name args =>
    show (p.callOn m callers receiver name args).heap.Unreleased n
    unfold callOn
    split
    · exact unreleased
    · split
      · next callee found => exact unreleased_enter library unreleased found apart
      · exact unreleased
  | invoke c =>
    show (p.invoke m callers c).heap.Unreleased n
    unfold invoke
    split
    · next callee found =>
      obtain ⟨_, _, found'⟩ := callee_eq_ok found
      exact unreleased_enter library unreleased found' apart
    · exact unreleased

/-! ## Steps -/

/-- Whoever waits goes on without a change of the heap. -/
theorem Waits.heap_resume {mod : Module} (waits : Waits mod w role events h flight callers owed)
    (m : Memory) (result : Option Value) : (resume m result callers).heap = m.heap := by
  cases waits <;> rfl

/-- What a body has on its stack: free values only, unless it is in the middle of a prologue, a
registration or a release. -/
theorem Flow.stack {mod : Module} {f : Frame}
    (flow : Flow mod w role events h (.frame f) callers flight inflight owed) :
    f.Sound mod w h flight ∧ Waits mod w role events h flight callers owed ∧
      ((∀ v ∈ f.stack, h.IsFree w.field flight v) ∨ f.part role = .prologueStore ∨
        (f.part role = .registerCall ∧ ∃ content v rest, f.stack = content :: v :: rest ∧
          h.IsFree w.field flight v) ∨
        f.part role = .releaseCall ∧ ∃ o object rest, f.receiver? = some o ∧
          h.get? o = some object ∧ f.stack = object.field w.field :: rest) := by
  cases flow with
  | resting sound stack _ waits => exact ⟨sound, waits, .inl stack⟩
  | storing sound _ _ part waits => exact ⟨sound, waits, .inr (.inl part)⟩
  | registerThis sound _ stack _ waits => exact ⟨sound, waits, .inl stack⟩
  | registerLoad sound _ _ stack _ waits => exact ⟨sound, waits, .inl stack⟩
  | registerCall sound _ _ stack free part waits =>
    exact ⟨sound, waits, .inr (.inr (.inl ⟨part, _, _, _, stack, free _ List.mem_cons_self⟩))⟩
  | releaseLoad sound _ _ stack _ waits => exact ⟨sound, waits, .inl stack⟩
  | releaseCall sound receiver there stack _ part waits =>
    exact ⟨sound, waits, .inr (.inr (.inr ⟨part, _, _, _, receiver, there, stack⟩))⟩

theorem Heap.IsFree.ne (tracks : h.Tracks w.field o n) {v : Value}
    (free : h.IsFree w.field flight v) : v ≠ .object n :=
  fun same => (free n same).2.2 o tracks

/-- Only the teardown has the release call of the tracking field. -/
theorem Staging.key_of_releaseCall (staging : Staging p.module w role) {f : Frame}
    (known : ∃ d, HasBody p.module f.key d f.body) {i : Instr} (here : f.current? = some i)
    (part : f.part role = .releaseCall) : f.key = w.teardown := by
  by_contra other
  have next := (Frame.leads_next staging known here).2
  rw [part] at next
  have released : f.partAt role (f.position + 1) = .released := of_decide_eq_true next
  unfold Frame.partAt at released
  cases there : f.body.at? (f.position + 1) with
  | none =>
    rw [there] at released
    cases released
  | some line =>
    rw [there] at released
    exact staging.clear f.key other line released

theorem Heap.Tracks.head?_ne (tracks : h.Tracks w.field o n) {stack : List Value}
    (free : ∀ v ∈ stack, h.IsFree w.field flight v) (count : Nat) :
    (stack.take count).reverse.head? ≠ some (.object n) := fun passed =>
  have listed : .object n ∈ stack :=
    List.mem_of_mem_take (List.mem_reverse.1 (List.mem_of_head? passed))
  (free _ listed).ne tracks rfl

/-- What is constructed is not made of the container of an object. -/
theorem Flow.head?_ne_of_newobj (staging : Staging p.module w role) {f : Frame}
    (flow : Flow p.module w role events h (.frame f) callers flight inflight owed)
    (tracks : h.Tracks w.field o n) {constructor : MethodRef}
    (here : f.current? = some (.newobj constructor)) (count : Nat) :
    (f.stack.take count).reverse.head? ≠ some (.object n) := by
  obtain ⟨sound, _, stack⟩ := flow.stack
  have plays := Frame.plays_part staging sound.known here
  obtain free | part | ⟨part, _⟩ | ⟨part, _⟩ := stack
  · exact tracks.head?_ne free count
  all_goals
    rw [part] at plays
    obtain ⟨_, impossible, _⟩ := plays
    cases impossible

/-- A call on the container of an object is the release call of the teardown that runs on it. -/
theorem Flow.releases_of_head? (staging : Staging p.module w role) {f : Frame}
    (flow : Flow p.module w role events h (.frame f) callers flight inflight owed)
    (account : Account w due events h flight inflight owed) (tracks : h.Tracks w.field o n)
    {method : MethodRef} {isVirtual : Bool} (here : f.current? = some (.invoke method isVirtual))
    (passed : (f.stack.take method.arity).reverse.head? = some (.object n)) :
    f.key = w.teardown ∧ f.receiver? = some o ∧ f.current? = some (.callvirt method) := by
  obtain ⟨sound, _, stack⟩ := flow.stack
  have plays := Frame.plays_part staging sound.known here
  obtain free | part | ⟨part, content, v, rest, stack, free⟩ |
    ⟨part, o', object, rest, receiver, there, stack⟩ := stack
  · exact absurd passed (tracks.head?_ne free _)
  · rw [part] at plays
    obtain ⟨_, impossible, _⟩ := plays
    cases impossible
  · -- A registration passes the container after the value.
    rw [part] at plays
    obtain ⟨helper, same, arity, _⟩ := plays
    cases same
    rw [arity, stack] at passed
    exact absurd (Option.some.inj passed) (free.ne tracks)
  · have key := staging.key_of_releaseCall sound.known here part
    rw [part] at plays
    obtain ⟨release, same, params, _⟩ := plays
    cases same
    have content : object.field w.field = .object n := by
      rw [MethodRef.arity, params, stack] at passed
      cases hasThis : method.hasThis with
      | false =>
        rw [hasThis] at passed
        cases passed
      | true =>
        rw [hasThis] at passed
        exact Option.some.inj passed
    have same := account.ordered.alone o' o n ⟨object, there, content⟩ tracks
    exact ⟨key, same ▸ receiver, here⟩

/-- A step that releases the container of an object is the release call of the teardown that runs
on the object. -/
theorem step_unreleased (staging : Staging p.module w role) (library : p.natives = Reactive.natives)
    {s : State}
    (flow : Flow p.module w role events s.memory.heap s.active s.callers flight inflight owed)
    (account : Account w due events s.memory.heap flight inflight owed)
    (tracks : s.memory.heap.Tracks w.field o n) (unreleased : s.memory.heap.Unreleased n) :
    (p.step s).heap.Unreleased n ∨ ∃ f release, s.active = .frame f ∧ f.key = w.teardown ∧
      f.receiver? = some o ∧ f.current? = some (.callvirt release) := by
  obtain ⟨memory, active, callers⟩ := s
  dsimp only at flow account tracks unreleased
  cases active with
  | failure e => cases flow
  | native work =>
    left
    cases flow with
    | making | handing => exact unreleased
    | @working result rest callers owed resultFree restFree waits =>
      cases rest with
      | nil =>
        show (resume memory result callers).heap.Unreleased n
        rw [waits.heap_resume]
        exact unreleased
      | cons v rest =>
        have apart : (Request.invoke (release v)).values.head? ≠ some (.object n) := fun same =>
          (restFree v List.mem_cons_self).ne tracks (Option.some.inj same)
        exact unreleased_perform library unreleased apart
  | frame f =>
    have step := p.steps ⟨memory, .frame f, callers⟩
    generalize p.step ⟨memory, .frame f, callers⟩ = progress at step ⊢
    cases step with
    | moved here executes =>
      left
      cases executes with
      | stfld => exact unreleased.setField _ _ _
      | _ => exact unreleased
    | stuck => exact .inl unreleased
    | ended ends =>
      cases ends with
      | left here executes =>
        left
        show (resume _ _ _).heap.Unreleased n
        rw [flow.stack.2.1.heap_resume]
        exact unreleased
    | asked asks =>
      have counted : ({ memory with steps := memory.steps + 1 } : Memory).heap.Unreleased n :=
        unreleased
      cases asks with
      | construct here executes =>
        cases executes with
        | newobj => exact .inl (unreleased_perform library counted
            (flow.head?_ne_of_newobj staging tracks here _))
      | invoke here executes =>
        cases executes with
        | @invoke method isVirtual _ =>
          by_cases passed : (f.stack.take method.arity).reverse.head? = some (.object n)
          · have ⟨key, receiver, calls⟩ := flow.releases_of_head? staging account tracks here passed
            exact .inr ⟨f, method, rfl, key, receiver, calls⟩
          · exact .inl (unreleased_perform library counted passed)

/-! ## Runs -/

theorem Frame.stores?_eq_some {f : Frame} {field : FieldRef} {v : Value} {rest : List Value}
    (here : f.current? = some (.stfld field)) (stack : f.stack = v :: .object o :: rest)
    (named : field.name = w.field) : f.stores? w.field = some (o, v) := by
  unfold Frame.stores?
  rw [here, stack]
  exact if_pos named

/-- The prologue of an object is a store into its field. -/
theorem stores_of_prologue {s : State} (listed : .prologue o ∈ emitted w s) :
    ∃ v, s.stores? w.field = some (o, v) := by
  obtain ⟨memory, active, callers⟩ := s
  obtain own | later := List.mem_append.1 listed
  · cases active with
    | native | failure => cases own
    | frame f =>
      obtain stored | leaves := List.mem_append.1 own
      · unfold Frame.stored at stored
        split at stored
        · next field content o' _ here stack =>
          split at stored
          · next named =>
            cases List.mem_singleton.1 stored
            exact ⟨content, Frame.stores?_eq_some here stack named⟩
          · cases stored
        · cases stored
      · unfold Frame.leaves at leaves
        split at leaves
        · split at leaves
          · cases List.mem_singleton.1 leaves
          · cases leaves
        · cases leaves
  · split at later
    · unfold handed at later
      split at later
      · split at later
        · split at later
          · cases List.mem_singleton.1 later
          · cases later
        · cases later
      · cases later
    · cases later

theorem prologue_not_mem_emitted {s : State} (quiet : ∀ v, s.stores? w.field ≠ some (o, v)) :
    .prologue o ∉ emitted w s := fun listed => by
  obtain ⟨v, stores⟩ := stores_of_prologue listed
  exact quiet v stores

theorem producedOn_grows {more : List Event} (apart : .prologue o ∉ more) :
    producedOn o events <+: producedOn o (events ++ more) := by
  rw [producedOn_append]
  generalize producedOn o events = values
  induction more generalizing values with
  | nil => exact List.prefix_rfl
  | cons e more ih =>
    have rest := ih (fun listed => apart (List.mem_cons_of_mem e listed)) (e.record o values)
    refine List.IsPrefix.trans ?_ rest
    cases e with
    | prologue o' =>
      have other : o' ≠ o := fun same => apart (same ▸ List.mem_cons_self)
      have same : (Event.prologue o').record o values = values := if_neg other
      exact same.symm ▸ List.prefix_rfl
    | produced o' v =>
      rw [Event.record]
      split
      · exact List.prefix_append values [v]
      · exact List.prefix_rfl
    | left => exact List.prefix_rfl

theorem Progress.Keeps.account {mod : Module} {progress : Progress}
    (keeps : progress.Keeps mod w due role events) (alive : progress.isAlive = true) :
    ∃ flight inflight owed, Account w due events progress.heap flight inflight owed := by
  cases progress with
  | running s =>
    obtain ⟨flight, inflight, owed, _, account⟩ := keeps alive
    exact ⟨flight, inflight, owed, account⟩
  | finished m outcome =>
    cases outcome with
    | ok result => exact ⟨none, calm, [], keeps⟩
    | error e => cases alive

/-- What a state of a run, or its end, knows of the container that an object was given once: the
account is in order, and the container has the entries that it started with. -/
structure Program.Tends (p : Program) (w : Watch) (role : MethodKey → Handle → Role) (o n : Nat)
    (entries : List Value) (progress : Progress) : Prop where
  tracks : progress.heap.Tracks w.field o n
  kept : ∃ events, progress.Keeps p.module w (· = n) role events ∧
    events.count (.prologue o) = 1 ∧ entries <+: producedOn o events

namespace Program.Tends

variable {s : State}

/-- The start of a request that passes free values. -/
theorem start {memory : Memory} {request : Request} (staging : Staging p.module w role)
    (library : p.natives = Reactive.natives) (ordered : memory.heap.Ordered w.field none)
    (tracks : memory.heap.Tracks w.field o n) (holds : memory.heap.Holds n entries false)
    (free : ∀ v ∈ request.values, memory.heap.IsFree w.field none v) :
    p.Tends w role o n entries (p.perform memory [] request) where
  tracks := by
    have spared := ((p.enters_perform memory [] request).spares
      (p.spares_of_library library w.field) fun c impossible => by cases impossible).2
    exact spared o (.object n) tracks
  kept := by
    have tracked := Heap.tracking?_eq_some.2 ⟨n, tracks, holds⟩
    have account := account_history (· = n) ordered fun k same => ⟨entries, same ▸ holds⟩
    refine ⟨memory.heap.history w.field, perform_keeps staging library account .nil free,
      Heap.count_history (by rw [tracked]; rfl), ?_⟩
    exact (Heap.producedOn_history tracked).symm ▸ List.prefix_rfl

/-- A container stays a container. -/
theorem holds {progress : Progress} (tends : p.Tends w role o n entries progress)
    (alive : progress.isAlive = true) : progress.heap.Unreleased n ∨ progress.heap.Released n := by
  obtain ⟨events, keeps, _⟩ := tends.kept
  obtain ⟨_, _, _, account⟩ := keeps.account alive
  obtain ⟨container, entries', released, there, _, native⟩ :=
    account.ordered.tracked o n tends.tracks
  cases released with
  | false => exact .inl ⟨entries', container, there, native⟩
  | true => exact .inr ⟨entries', container, there, native⟩

section Step

variable (tends : p.Tends w role o n entries (.running s)) (alive : s.isAlive = true)
  (staging : Staging p.module w role)

include tends alive staging

/-- A container is released by the release call of the teardown on its object. -/
theorem unreleased_step (library : p.natives = Reactive.natives)
    (unreleased : s.memory.heap.Unreleased n) :
    (p.step s).heap.Unreleased n ∨ ∃ f release, s.active = .frame f ∧ f.key = w.teardown ∧
      f.receiver? = some o ∧ f.current? = some (.callvirt release) := by
  obtain ⟨events, keeps, _⟩ := tends.kept
  obtain ⟨_, _, _, flow, account⟩ := keeps alive
  exact step_unreleased staging library flow account tends.tracks unreleased

omit staging in
theorem known {f : Frame} (working : s.active = .frame f) :
    ∃ d, HasBody p.module f.key d f.body := by
  obtain ⟨events, keeps, _⟩ := tends.kept
  obtain ⟨_, _, _, flow, _⟩ := keeps alive
  rw [working] at flow
  exact flow.stack.1.known

/-- Where the teardown comes to its final exit, the container is released. -/
theorem released_of_exit {f : Frame} (working : s.active = .frame f)
    (key : f.key = w.teardown) (receiver : f.receiver? = some o)
    (here : f.current? = some .ret) (last : f.position + 1 = f.body.length) :
    s.memory.heap.Released n := by
  obtain ⟨events, keeps, once, _⟩ := tends.kept
  obtain ⟨_, _, _, flow, account⟩ := keeps alive
  rw [working] at flow
  obtain ⟨sound, _⟩ := flow.stack
  obtain ⟨d, known⟩ := sound.known
  obtain ⟨exit, line⟩ := Frame.current?_eq_some.1 here
  have exits : f.body.finalExit? = some exit := by
    rw [Body.finalExit?_eq_some, List.getLast?_eq_getElem?, ← line]
    congr 1
    have length : f.body.lines.length = f.position + 1 := last.symm
    omega
  have part : f.part role = .released := by
    rw [Frame.part, Frame.partAt_of_line line, key]
    exact staging.exit (key ▸ known) exits
  obtain calm | ⟨_, o', receiver', _, finished⟩ := flow.rests part
  · rw [part] at calm
    cases calm
  · rw [receiver] at receiver'
    cases receiver'
    obtain ⟨k, entries', tracks, holds⟩ := finished once
    exact ⟨entries', tracks.unique tends.tracks ▸ holds⟩

variable (library : p.natives = Reactive.natives) (dispatches : p.Dispatches)
  (spares : s.Spares w.field) (quiet : ∀ v, s.stores? w.field ≠ some (o, v))

include library dispatches spares quiet

/-- A step that stores nothing into the field of the object goes on in the same way. -/
theorem step : p.Tends w role o n entries (p.step s) where
  tracks := (step_spares (p.spares_of_library library w.field) spares).2 o (.object n) quiet
    tends.tracks
  kept := by
    obtain ⟨events, keeps, once, starts⟩ := tends.kept
    obtain ⟨_, _, _, flow, account⟩ := keeps alive
    have apart := prologue_not_mem_emitted quiet
    refine ⟨events ++ emitted w s, step_keeps staging library dispatches flow account, ?_,
      starts.trans (producedOn_grows apart)⟩
    rw [List.count_append, once, List.count_eq_zero.2 apart]

/-- A released container stays released. -/
theorem released_step (released : s.memory.heap.Released n) (alive' : (p.step s).isAlive = true) :
    (p.step s).heap.Released n := by
  obtain ⟨events, keeps, once, _⟩ := tends.kept
  obtain ⟨_, _, _, flow, account⟩ := keeps alive
  obtain ⟨entries', holds⟩ := released
  -- As if the teardown had been left: the account remembers that the container is released.
  obtain ⟨account', later⟩ := account.left (account.over_of_released tends.tracks holds)
  have kept := step_keeps staging library dispatches (flow.later later) account'
  obtain ⟨_, _, _, account''⟩ := kept.account alive'
  have apart := prologue_not_mem_emitted quiet
  have once' : List.count (Event.prologue o) (events ++ [.left o] ++ emitted w s) = 1 := by
    rw [List.count_append, List.count_append, once, List.count_eq_zero.2 apart]
    rfl
  obtain ⟨k, entries'', tracks, holds'⟩ := (account''.finished o (by simp)).2 once'
  have tends' := tends.step alive staging library dispatches spares quiet
  exact ⟨entries'', tracks.unique tends'.tracks ▸ holds'⟩

end Step

/-- At the end of a run, a released container has all the entries that it started with, and its
subscriptions are released. -/
theorem finished {result : Option Value}
    (tends : p.Tends w role o n entries (.finished m (.ok result)))
    (released : m.heap.Released n) : ∃ entries',
      m.heap.tracking? w.field o = some (entries', true) ∧ entries <+: entries' ∧
        ∀ v ∈ entries', m.heap.isOpen v = false := by
  obtain ⟨events, account, once, starts⟩ := tends.kept
  have account : Account w (· = n) events m.heap none calm [] := account
  have tracks : m.heap.Tracks w.field o n := tends.tracks
  obtain ⟨entries', holds⟩ := released
  obtain ⟨k, entries'', released, tracks', holds', same⟩ :=
    account.ledger o (account.started o n tracks)
  cases tracks.unique tracks'
  cases (holds.unique holds').1
  rw [calm, List.append_nil] at same
  refine ⟨entries', Heap.tracking?_eq_some.2 ⟨n, tracks, holds⟩, same ▸ starts, fun v listed => ?_⟩
  exact Heap.isOpen_of_isQuiet
    ((account.debts n entries' holds rfl v listed).resolve_right List.not_mem_nil)

end Program.Tends

end ReleaseWeaver.Machine
