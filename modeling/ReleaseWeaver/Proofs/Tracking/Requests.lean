import ReleaseWeaver.Proofs.Machine.Dispatch
import ReleaseWeaver.Proofs.Tracking.Flow

/-
  Requests and results. Whatever code a call finds starts on free values, and whoever waits goes
  on with a free result; so both keep the account. The release of a value that native code asks
  for pays what is owed for it: a handle is released at once.
-/

namespace ReleaseWeaver.Machine

open Program Reactive

variable {p : Program} {w : Watch} {due : Nat → Prop} {role : MethodKey → Handle → Role}
  {events : List Event} {memory : Memory} {callers : List Caller} {owed args : List Value} {v : Value}
  {className name : String} {params : Nat} {callee : Callee}

theorem keeps_fail (m : Module) (memory : Memory) (callers : List Caller) (e : ExecError) :
    (fail memory callers e).Keeps m w due role events :=
  fun alive => by cases alive

/-- Native code that goes on leaves the account in order, also if those who wait count on what it
has done. -/
theorem Performs.keeps_onward {m : Module} {reply : Heap × NativeWork}
    (performs : Performs w due events memory.heap owed reply)
    (waits : (∀ e, reply.2 ≠ .done (.error e)) → Later w events memory.heap none events reply.1 none →
      Waits m w role events reply.1 none callers owed) :
    (runNative memory callers reply).Keeps m w due role events := by
  cases performs with
  | failed => exact fun alive => by cases alive
  | @goesOn h' result rest resultFree restFree account later =>
    have fine : ∀ e, releaseAll result rest ≠ .done (.error e) := by
      intro e failed
      cases rest <;> cases failed
    exact fun _ => ⟨none, calm, rest ++ owed,
      .working resultFree restFree (waits fine later), account⟩

/-- Native code that goes on leaves the account in order. -/
theorem Performs.keeps {m : Module} {reply : Heap × NativeWork}
    (performs : Performs w due events memory.heap owed reply)
    (waits : Waits m w role events memory.heap none callers owed) :
    (runNative memory callers reply).Keeps m w due role events :=
  performs.keeps_onward fun _ later => waits.later later

section Code

variable (staging : Staging p.module w role) (library : p.natives = Reactive.natives)

include staging library

theorem enter_keeps (account : Account w due events memory.heap none calm owed)
    (waits : Waits p.module w role events memory.heap none callers owed)
    (found : p.lookup className name params = some callee)
    (free : ∀ v ∈ args, memory.heap.IsFree w.field none v) :
    (enter memory callers callee args).Keeps p.module w due role events := by
  obtain ⟨owner, code, rfl, known⟩ | ⟨key, d, b, rfl, body⟩ := lookup_eq_some found
  · rw [library] at known
    exact (natives_perform account known free).keeps waits
  · intro _
    have sound : (Frame.start key d b args).Sound p.module w memory.heap none := by
      refine ⟨⟨d, body⟩, free, fun v listed => ?_⟩
      rw [List.eq_of_mem_replicate listed]
      exact Heap.isFree_of_ne fun _ impossible => by cases impossible
    have opened : ((Frame.start key d b args).partAt role 0).isOpen = true :=
      Frame.isOpen_partAt_zero staging sound.known
    refine ⟨none, calm, owed, .resting sound (fun v listed => ?_) (.inl ?_) waits, account⟩
    · cases listed
    · rw [Frame.part, Role.isCalm, show (Frame.start key d b args).position = 0 from rfl, opened]
      rfl

theorem construct_keeps (account : Account w due events memory.heap none calm owed)
    (waits : Waits p.module w role events memory.heap none callers owed)
    (free : ∀ v ∈ args, memory.heap.IsFree w.field none v) :
    (p.construct memory callers className args).Keeps p.module w due role events := by
  have blank : ({ className } : Object).fields = [] := rfl
  obtain ⟨account', later⟩ := account.alloc none blank
    (fun _ _ impossible => by cases impossible) (fun _ impossible => by cases impossible) (.inl rfl)
  have this : (memory.heap.alloc { className }).1.IsFree w.field none
      (.object (memory.heap.objects.size + 1)) := Heap.isFree_fresh rfl account.ordered
  unfold construct
  dsimp only
  split
  · next callee found =>
    refine enter_keeps staging library account' (.constructing this (waits.later later)) found
      fun v listed => ?_
    obtain rfl | listed := List.mem_cons.1 listed
    · exact this
    · exact later.free v (free v listed)
  · exact keeps_fail _ _ _ _

theorem callOn_keeps (account : Account w due events memory.heap none calm owed)
    (waits : Waits p.module w role events memory.heap none callers owed)
    (free : ∀ v' ∈ v :: args, memory.heap.IsFree w.field none v') :
    (p.callOn memory callers v name args).Keeps p.module w due role events := by
  unfold callOn
  split
  · exact keeps_fail _ _ _ _
  · split
    · next callee found => exact enter_keeps staging library account waits found free
    · exact keeps_fail _ _ _ _

theorem invoke_keeps (account : Account w due events memory.heap none calm owed)
    (waits : Waits p.module w role events memory.heap none callers owed) {c : Call}
    (free : ∀ v ∈ c.args, memory.heap.IsFree w.field none v) :
    (p.invoke memory callers c).Keeps p.module w due role events := by
  unfold invoke
  split
  · next callee found =>
    obtain ⟨className, _, known⟩ := callee_eq_ok found
    exact enter_keeps staging library account waits known free
  · exact keeps_fail _ _ _ _

/-- A request that passes free values keeps the account. -/
theorem perform_keeps (account : Account w due events memory.heap none calm owed)
    (waits : Waits p.module w role events memory.heap none callers owed) {request : Request}
    (free : ∀ v ∈ request.values, memory.heap.IsFree w.field none v) :
    (p.perform memory callers request).Keeps p.module w due role events := by
  cases request with
  | construct className args => exact construct_keeps staging library account waits free
  | callByName receiver name args => exact callOn_keeps staging library account waits free
  | invoke c => exact invoke_keeps staging library account waits free

end Code

/-! ## Results -/

theorem isFree_getD {h : Heap} {result : Option Value}
    (free : ∀ v, result = some v → h.IsFree w.field none v) :
    h.IsFree w.field none (result.getD .null) := by
  cases result with
  | none => exact Heap.isFree_of_ne fun _ impossible => by cases impossible
  | some v => exact free v rfl

section Accept

variable {m : Module} {f : Frame} {h : Heap} {result : Option Value}

theorem Frame.part_accept (takes : Bool) : (f.accept takes result).part role = f.part role := by
  cases takes <;> rfl

theorem Frame.Sound.accept {flight : Option Nat} (sound : f.Sound m w h flight) (takes : Bool) :
    (f.accept takes result).Sound m w h flight := by
  cases takes <;> exact ⟨sound.known, sound.args, sound.locals⟩

theorem Frame.isFree_accept (stack : ∀ v ∈ f.stack, h.IsFree w.field none v) (takes : Bool)
    (free : ∀ v, result = some v → h.IsFree w.field none v) :
    ∀ v ∈ (f.accept takes result).stack, h.IsFree w.field none v := by
  intro v listed
  cases takes with
  | false => exact stack v listed
  | true =>
    obtain rfl | listed := List.mem_cons.1 listed
    · exact isFree_getD free
    · exact stack v listed

/-- A handle call comes to a value, which is under way to the container from then on. -/
theorem resume_registering_keeps (account : Account w due events memory.heap none calm owed)
    (sound : f.Sound m w memory.heap none)
    (stack : ∀ v ∈ f.stack, memory.heap.IsFree w.field none v)
    (registers : f.part role = .registerThis) (past : f.isPastSite w 1 = true)
    (waits : Waits m w role events memory.heap none callers owed)
    (free : ∀ v, result = some v → memory.heap.IsFree w.field none v) :
    (resume memory result (.frame f true :: callers)).Keeps m w due role
      (events ++ handed w result (.frame f true :: callers)) := by
  have accepted := Frame.isFree_accept stack true free
  have part : (f.accept true result).part role = .registerThis :=
    (Frame.part_accept true).trans registers
  intro _
  cases receiver : f.receiver? with
  | none =>
    have silent : handed w result (.frame f true :: callers) = [] := by
      simp only [handed, receiver]
    rw [silent, List.append_nil]
    refine ⟨none, _, owed, .registerThis (v := result.getD .null) (sound.accept true) rfl accepted
      part waits, ?_⟩
    rw [show (f.accept true result).receiver? = none from receiver]
    exact account
  | some o =>
    have said : handed w result (.frame f true :: callers) =
        [.produced o (result.getD .null)] := by
      simp only [handed, receiver, past, if_true]
    obtain ⟨account', later⟩ := account.produced o (result.getD .null)
    rw [said]
    refine ⟨none, _, owed, .registerThis (v := result.getD .null) ((sound.accept true).later later)
      rfl (fun v listed => later.free v (accepted v listed)) part (waits.later later), ?_⟩
    rw [show (f.accept true result).receiver? = some o from receiver]
    exact account'

/-- Any other call comes to its result, and its body rests. -/
theorem resume_resting_keeps {takes : Bool}
    (account : Account w due events memory.heap none calm owed)
    (sound : f.Sound m w memory.heap none)
    (stack : ∀ v ∈ f.stack, memory.heap.IsFree w.field none v)
    (rests : f.Rests w role events memory.heap) (past : f.isPastSite w 1 = false)
    (waits : Waits m w role events memory.heap none callers owed)
    (free : ∀ v, result = some v → memory.heap.IsFree w.field none v) :
    (resume memory result (.frame f takes :: callers)).Keeps m w due role
      (events ++ handed w result (.frame f takes :: callers)) := by
  have silent : handed w result (.frame f takes :: callers) = [] := by
    simp only [handed, past]
    cases f.receiver? <;> rfl
  have rests' : (f.accept takes result).Rests w role events memory.heap := by
    cases takes <;> exact rests
  rw [silent, List.append_nil]
  exact fun _ => ⟨none, calm, owed, .resting (sound.accept takes)
    (Frame.isFree_accept stack takes free) rests' waits, account⟩

/-- Whoever waits goes on with a free result. -/
theorem resume_keeps (account : Account w due events memory.heap none calm owed)
    (waits : Waits m w role events memory.heap none callers owed)
    (free : ∀ v, result = some v → memory.heap.IsFree w.field none v) :
    (resume memory result callers).Keeps m w due role (events ++ handed w result callers) := by
  cases waits with
  | nil =>
    rw [show handed w result [] = [] from rfl, List.append_nil]
    exact account
  | @constructing this callers owed thisFree waits =>
    rw [show handed w result (.constructing this :: callers) = [] from rfl, List.append_nil]
    intro _
    have free (v : Value) (same : some this = some v) : memory.heap.IsFree w.field none v := by
      cases same
      exact thisFree
    have none (v : Value) (listed : v ∈ []) : memory.heap.IsFree w.field none v := by cases listed
    exact ⟨.none, calm, owed, .working free none waits, account⟩
  | @native result' rest callers owed' resultFree restFree waits =>
    rw [show handed w result (.native (afterRelease result' rest) :: callers) = [] from rfl,
      List.append_nil]
    exact fun _ => ⟨none, calm, rest ++ owed', .working resultFree restFree waits, account⟩
  | @frame f takes callers owed sound stack waiting site waits =>
    obtain rests | ⟨registers, takes'⟩ := waiting
    · have past : f.isPastSite w 1 = false := by
        cases past : f.isPastSite w 1 with
        | false => rfl
        | true =>
          have registers := site.1 past
          obtain calm | ⟨released, _⟩ := rests
          · rw [registers] at calm
            cases calm
          · rw [registers] at released
            cases released
      exact resume_resting_keeps account sound stack rests past waits free
    · subst takes'
      exact resume_registering_keeps account sound stack registers (site.2 registers) waits free

end Accept

/-! ## Releases -/

/-- A released value is no longer owed. -/
theorem Account.paid {h : Heap} {flight : Option Nat} {inflight : Nat → List Value}
    (account : Account w due events h flight inflight (v :: owed)) (quiet : h.IsQuiet v) :
    Account w due events h flight inflight owed := by
  refine { account with debts := fun n entries holds counts v' listed => ?_ }
  obtain before | owes := account.debts n entries holds counts v' listed
  · exact .inl before
  · obtain rfl | owes := List.mem_cons.1 owes
    · exact .inl quiet
    · exact .inr owes

/-- The contract's release is dispatched on the receiver. -/
def Program.Dispatches (p : Program) : Prop :=
  p.isVirtualMethod { declaring := disposable, name := releaseName } = true

instance (p : Program) : Decidable p.Dispatches := inferInstanceAs (Decidable (_ = true))

theorem release_keeps (staging : Staging p.module w role) (library : p.natives = Reactive.natives)
    (dispatches : p.Dispatches) {result : Option Value} {rest : List Value}
    (account : Account w due events memory.heap none calm (v :: (rest ++ owed)))
    (waits : Waits p.module w role events memory.heap none callers owed)
    (resultFree : ∀ v, result = some v → memory.heap.IsFree w.field none v)
    (free : memory.heap.IsFree w.field none v)
    (restFree : ∀ v ∈ rest, memory.heap.IsFree w.field none v) :
    (p.invoke memory (.native (afterRelease result rest) :: callers) (release v)).Keeps
      p.module w due role events := by
  have waits' : Waits p.module w role events memory.heap none
      (.native (afterRelease result rest) :: callers) (rest ++ owed) :=
    .native resultFree restFree waits
  by_cases quiet : memory.heap.IsQuiet v
  · refine invoke_keeps staging library (account.paid quiet) waits' fun v' listed => ?_
    exact List.mem_singleton.1 listed ▸ free
  -- What is not quiet is a handle, and its class has native code.
  unfold Heap.IsQuiet at quiet
  push Not at quiet
  obtain ⟨n, b, rfl, ⟨object, there, native⟩, _⟩ := quiet
  have named := account.ordered.handles n object b there native
  have start : p.startClass memory.heap (release (.object n)) = .ok object.className := by
    have virtual : ((release (.object n)).isVirtual && (release (.object n)).method.hasThis &&
        p.isVirtualMethod (release (.object n)).method) = true := dispatches
    rw [startClass, if_pos virtual]
    show (memory.heap.object (.object n)).map (fun known => known.2.className) = _
    rw [Heap.object, there]
    rfl
  have known : p.natives (nativeName object.className (release (.object n)).method.name) =
      some subscriptionRelease := by
    rw [library, named]
    rfl
  rw [invoke_native start known]
  show (runNative memory _ (subscriptionRelease memory.heap [.object n])).Keeps _ _ _ _ _
  obtain ⟨e, failed⟩ | ⟨n', object', same, there', ⟨b', native', done⟩ | ⟨other, _⟩⟩ :=
    subscriptionRelease_cons memory.heap (.object n) []
  · rw [failed]
    exact fun alive => by cases alive
  · cases same
    have untracked := (free n rfl).2.2
    have changed : Account w due events (memory.heap.modify (setNative (.handle true)) n) none calm
          (rest ++ owed) ∧
        Later w events memory.heap none events
          (memory.heap.modify (setNative (.handle true)) n) none := by
      refine account.setNative calm _ there ?_ ?_ ?_ (fun _ _ _ => rfl) ?_ ?_
      · intro entries released impossible
        cases impossible
      · intro b' same
        cases same
        exact ⟨rfl, b, native⟩
      · intro o tracks
        exact absurd tracks (untracked o)
      · intro entries impossible
        cases impossible
      · intro v owes
        obtain rfl | owes := List.mem_cons.1 owes
        · refine .inr ?_
          rintro k released same ⟨new, found, was⟩
          cases same
          rw [Heap.get?_modify, if_pos rfl, there] at found
          cases found
          cases was
          rfl
        · exact .inl owes
    obtain ⟨account', later⟩ := changed
    rw [done]
    have performs : Performs w due events memory.heap (rest ++ owed)
        (memory.heap.modify (setNative (.handle true)) n, releaseAll none []) :=
      .goesOn (fun v impossible => by cases impossible) (fun v impossible => by cases impossible)
        account' later
    exact performs.keeps waits'
  · cases same
    rw [there] at there'
    cases there'
    exact absurd native (other b)

end ReleaseWeaver.Machine
