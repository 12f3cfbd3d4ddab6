import ReleaseWeaver.Proofs.Tracking.Ledger

/-
  The native code of the reactive library keeps the account. On values that are free it never
  touches a container in a tracking field. The two pieces that woven code runs on such a container
  are the helper, which brings a value into it, and the release of the container.
-/

namespace ReleaseWeaver.Machine

namespace Reactive

variable {h : Heap} {result : Option Value} {v container item : Value}

/-- What native code that releases values waits with. -/
def afterRelease (result : Option Value) (rest : List Value) (h : Heap) (outcome : Outcome) :
    Heap × NativeWork :=
  (h, match outcome with
    | .ok _ => releaseAll result rest
    | .error e => .done (.error e))

/-- The native methods. -/
theorem natives_cases {name : String} {code : NativeCode} (known : natives name = some code) :
    code = objectConstructor ∨ code = containerConstructor ∨ code = containerAdd ∨
      code = containerRelease ∨ code = subscribe ∨ code = never ∨ code = trackWith ∨
      code = subscriptionRelease := by
  unfold natives at known
  split at known <;> simp_all

theorem containerConstructor_cons (h : Heap) (v : Value) (rest : List Value) :
    containerConstructor h (v :: rest) = match h.object v with
      | .ok (n, _) => (h.modify (setNative (.container [] false)) n, releaseAll none [])
      | .error e => (h, .done (.error e)) := by
  show attempt h (h.object v >>= fun known =>
    pure (finish (h.modify (setNative (.container [] false)) known.1))) = _
  cases h.object v <;> rfl

theorem add_eq_ok {reply : Heap × NativeWork} (added : add h container item result = .ok reply) :
    ∃ n object entries released, container = .object n ∧ h.get? n = some object ∧
      object.native = .container entries released ∧
      reply = (h.modify (setNative (.container (entries ++ [item]) released)) n,
        releaseAll result (if released then [item] else [])) := by
  unfold add at added
  cases found : h.object container with
  | error e =>
    rw [found] at added
    cases added
  | ok known =>
    obtain ⟨n, object⟩ := known
    obtain ⟨same, there⟩ := Heap.object_eq_ok.1 found
    rw [found] at added
    cases native : object.native with
    | container entries released =>
      simp only [bind, Except.bind, native, pure, Except.pure, Except.ok.injEq] at added
      exact ⟨n, object, entries, released, same, there, native, added.symm⟩
    | plain | handle =>
      simp only [bind, Except.bind, native] at added
      cases added

theorem attempt_add (h : Heap) (container item : Value) (result : Option Value) :
    (∃ e, attempt h (add h container item result) = (h, .done (.error e))) ∨
      ∃ n object entries released, container = .object n ∧ h.get? n = some object ∧
        object.native = .container entries released ∧
        attempt h (add h container item result) =
          (h.modify (setNative (.container (entries ++ [item]) released)) n,
            releaseAll result (if released then [item] else [])) := by
  cases added : add h container item result with
  | error e => exact .inl ⟨e, rfl⟩
  | ok reply =>
    obtain ⟨n, object, entries, released, same, there, native, rfl⟩ := add_eq_ok added
    exact .inr ⟨n, object, entries, released, same, there, native, rfl⟩

/-- A release of a container for the first time hands its entries on. -/
theorem containerRelease_cons (h : Heap) (v : Value) (rest : List Value) :
    (∃ e, containerRelease h (v :: rest) = (h, .done (.error e))) ∨
      ∃ n object entries released, v = .object n ∧ h.get? n = some object ∧
        object.native = .container entries released ∧
        containerRelease h (v :: rest) = if released then (h, releaseAll none [])
          else (h.modify (setNative (.container entries true)) n, releaseAll none entries) := by
  simp only [containerRelease, receiver, bind, Except.bind]
  cases found : h.object v with
  | error e => exact .inl ⟨e, rfl⟩
  | ok known =>
    obtain ⟨n, object⟩ := known
    obtain ⟨same, there⟩ := Heap.object_eq_ok.1 found
    cases native : object.native with
    | container entries released =>
      refine .inr ⟨n, object, entries, released, same, there, native, ?_⟩
      cases released with
      | false => simp [native, attempt, pure, Except.pure]
      | true =>
        simp [native, attempt, pure, Except.pure]
        rfl
    | plain | handle =>
      refine .inl ⟨.notAnObject "CompositeDisposable::Dispose receiver", ?_⟩
      simp only [native, attempt, throw, throwThe, MonadExceptOf.throw]

theorem subscriptionRelease_cons (h : Heap) (v : Value) (rest : List Value) :
    (∃ e, subscriptionRelease h (v :: rest) = (h, .done (.error e))) ∨
      ∃ n object, v = .object n ∧ h.get? n = some object ∧
        ((∃ b, object.native = .handle b ∧ subscriptionRelease h (v :: rest) =
            (h.modify (setNative (.handle true)) n, releaseAll none [])) ∨
          (∀ b, object.native ≠ .handle b) ∧
            subscriptionRelease h (v :: rest) = (h, releaseAll none [])) := by
  simp only [subscriptionRelease, receiver, bind, Except.bind]
  cases found : h.object v with
  | error e => exact .inl ⟨e, rfl⟩
  | ok known =>
    obtain ⟨n, object⟩ := known
    obtain ⟨same, there⟩ := Heap.object_eq_ok.1 found
    refine .inr ⟨n, object, same, there, ?_⟩
    cases native : object.native with
    | handle b =>
      refine .inl ⟨b, rfl, ?_⟩
      simp [native, attempt, pure, Except.pure]
      rfl
    | plain | container =>
      refine .inr ⟨by simp, ?_⟩
      simp [native, attempt, pure, Except.pure]
      rfl

end Reactive

open Reactive

/-! ## Native code and the account -/

/-- Native code has failed, or it goes on to release free values; then the account is kept, with
these values owed. -/
inductive Performs (w : Watch) (due : Nat → Prop) (events : List Event) (h : Heap)
    (owed : List Value) : Heap × NativeWork → Prop where
  | failed {h' e} : Performs w due events h owed (h', .done (.error e))
  | goesOn {h' result rest} : (∀ v, result = some v → h'.IsFree w.field none v) →
      (∀ v ∈ rest, h'.IsFree w.field none v) → Account w due events h' none calm (rest ++ owed) →
      Later w events h none events h' none → Performs w due events h owed (h', releaseAll result rest)

variable {w : Watch} {due : Nat → Prop} {events : List Event} {h : Heap} {owed : List Value}
  {n o : Nat} {v : Value}

theorem Account.performs_finish (account : Account w due events h none calm owed) :
    Performs w due events h owed (h, releaseAll none []) :=
  .goesOn (fun v impossible => by cases impossible) (fun v impossible => by cases impossible)
    account (.refl w events h none)

theorem performs_attempt {events' : List Event} {h' : Heap} {e : ExecError} :
    Performs w due events' h' owed (attempt h (.error e)) := .failed

/-- The native part of a free object changes. -/
theorem Account.performs_setNative (account : Account w due events h none calm owed)
    {object : Object} {native : Native} {result : Option Value} {rest : List Value}
    (there : h.get? n = some object) (untracked : ∀ o, ¬h.Tracks w.field o n)
    (free : ∀ entries released, native = .container entries released → ∀ v ∈ entries,
      h.IsFree w.field none v)
    (handle : ∀ b, native = .handle b → b = true ∧ ∃ b', object.native = .handle b')
    (debts : ∀ entries, native = .container entries true → due n → ∀ v ∈ entries,
      h.IsQuiet v ∨ v ∈ rest ++ owed)
    (handed : ∀ v, result = some v → h.IsFree w.field none v)
    (waiting : ∀ v ∈ rest, h.IsFree w.field none v) :
    Performs w due events h owed
      (h.modify (Reactive.setNative native) n, releaseAll result rest) := by
  obtain ⟨account', later⟩ := account.setNative calm (rest ++ owed) there free
    handle (fun o tracks => absurd tracks (untracked o)) (fun _ _ _ => rfl) debts
    fun v listed => .inl (List.mem_append_right rest listed)
  exact .goesOn (fun v same => later.free v (handed v same))
    (fun v listed => later.free v (waiting v listed)) account' later

/-- A free object becomes a container, or a container with other entries or released. -/
theorem Account.performs_setContainer (account : Account w due events h none calm owed)
    {object : Object} {entries : List Value} {released : Bool} {result : Option Value}
    {rest : List Value} (there : h.get? n = some object) (untracked : ∀ o, ¬h.Tracks w.field o n)
    (free : ∀ v ∈ entries, h.IsFree w.field none v)
    (debts : released = true → due n → ∀ v ∈ entries, h.IsQuiet v ∨ v ∈ rest ++ owed)
    (handed : ∀ v, result = some v → h.IsFree w.field none v)
    (waiting : ∀ v ∈ rest, h.IsFree w.field none v) :
    Performs w due events h owed
      (h.modify (Reactive.setNative (.container entries released)) n, releaseAll result rest) := by
  refine account.performs_setNative there untracked ?_ ?_ ?_ handed waiting
  · intro entries' released' same
    cases same
    exact free
  · intro b impossible
    cases impossible
  · intro entries' same
    cases same
    exact debts rfl

/-- A free value goes into a free container, and is released at once if the container is. -/
theorem Account.performs_add (account : Account w due events h none calm owed)
    {container item : Value} {result : Option Value}
    (containerFree : h.IsFree w.field none container) (itemFree : h.IsFree w.field none item)
    (handed : ∀ v, result = some v → v = item) :
    Performs w due events h owed (attempt h (add h container item result)) := by
  obtain ⟨e, failed⟩ | ⟨n, object, entries, released, rfl, there, native, done⟩ :=
    attempt_add h container item result
  · rw [failed]
    exact .failed
  have holds : h.Holds n entries released := ⟨object, there, native⟩
  rw [done]
  refine account.performs_setContainer there (containerFree n rfl).2.2 ?_ ?_ ?_ ?_
  · intro v listed
    obtain old | new := List.mem_append.1 listed
    · exact account.ordered.entries n entries released holds v old
    · exact List.mem_singleton.1 new ▸ itemFree
  · rintro rfl counts v listed
    obtain old | new := List.mem_append.1 listed
    · exact (account.debts n entries holds counts v old).imp_right (List.mem_append_right _)
    · exact .inr (List.mem_append_left _ new)
  · intro v same
    exact handed v same ▸ itemFree
  · intro v listed
    split at listed
    · exact List.mem_singleton.1 listed ▸ itemFree
    · cases listed

/-- A new object without fields and entries is handed out. -/
theorem Account.performs_alloc (account : Account w due events h none calm owed) (object : Object)
    (blank : object.fields = [])
    (empty : ∀ entries released, object.native ≠ .container entries released)
    (handle : ∀ b, object.native = .handle b → object.className = subscriptionName) :
    Performs w due events h owed
      ((h.alloc object).1, releaseAll (some (.object (h.objects.size + 1))) []) := by
  obtain ⟨account', later⟩ := account.alloc none blank
    (fun entries released native => absurd native (empty entries released)) handle (.inl rfl)
  refine .goesOn (fun v same => ?_) (fun v listed => by cases listed) account' later
  cases same
  exact Heap.isFree_fresh blank account.ordered

/-- A free object becomes a container without entries. -/
theorem Account.performs_containerConstructor (account : Account w due events h none calm owed)
    (rest : List Value) (free : h.IsFree w.field none v) :
    Performs w due events h owed (containerConstructor h (v :: rest)) := by
  rw [containerConstructor_cons]
  cases found : h.object v with
  | error e => exact .failed
  | ok known =>
    obtain ⟨n, object⟩ := known
    obtain ⟨rfl, there⟩ := Heap.object_eq_ok.1 found
    exact account.performs_setContainer there (free n rfl).2.2 (List.forall_mem_nil _)
      (fun _ _ => List.forall_mem_nil _) (fun v impossible => by cases impossible)
      (List.forall_mem_nil _)

/-- A free container hands its entries on to be released. -/
theorem Account.performs_release (account : Account w due events h none calm owed)
    (rest : List Value) (free : h.IsFree w.field none v) :
    Performs w due events h owed (containerRelease h (v :: rest)) := by
  obtain ⟨e, failed⟩ | ⟨n, object, entries, released, rfl, there, native, done⟩ :=
    containerRelease_cons h v rest
  · rw [failed]
    exact .failed
  rw [done]
  split
  · exact account.performs_finish
  · have inside : ∀ v ∈ entries, h.IsFree w.field none v :=
      account.ordered.entries n entries released ⟨object, there, native⟩
    exact account.performs_setContainer there (free n rfl).2.2 inside
      (fun _ _ v listed => .inr (List.mem_append_left _ listed))
      (fun v impossible => by cases impossible) inside

/-- A free subscription is over after its release. -/
theorem Account.performs_subscriptionRelease (account : Account w due events h none calm owed)
    (rest : List Value) (free : h.IsFree w.field none v) :
    Performs w due events h owed (subscriptionRelease h (v :: rest)) := by
  obtain ⟨e, failed⟩ | ⟨n, object, rfl, there, ⟨b, native, done⟩ | ⟨_, done⟩⟩ :=
    subscriptionRelease_cons h v rest
  · rw [failed]
    exact .failed
  · rw [done]
    refine account.performs_setNative there (free n rfl).2.2 ?_ ?_ ?_ ?_ (List.forall_mem_nil _)
    · intro entries released impossible
      cases impossible
    · intro b' same
      cases same
      exact ⟨rfl, b, native⟩
    · intro entries impossible
      cases impossible
    · intro v impossible
      cases impossible
  · rw [done]
    exact account.performs_finish

/-- The reactive library on free values. -/
theorem natives_perform (account : Account w due events h none calm owed) {name : String}
    {code : NativeCode} (known : natives name = some code) {args : List Value}
    (free : ∀ v ∈ args, h.IsFree w.field none v) : Performs w due events h owed (code h args) := by
  obtain rfl | rfl | rfl | rfl | rfl | rfl | rfl | rfl := natives_cases known
  · exact account.performs_finish
  · cases args with
    | nil => exact performs_attempt
    | cons v rest => exact account.performs_containerConstructor rest (free v List.mem_cons_self)
  · match args, free with
    | [], _ | [_], _ => exact performs_attempt
    | container :: item :: rest, free =>
      exact account.performs_add (free container (by simp)) (free item (by simp)) (by simp)
  · cases args with
    | nil => exact performs_attempt
    | cons v rest => exact account.performs_release rest (free v List.mem_cons_self)
  · cases args with
    | nil => exact performs_attempt
    | cons v rest =>
      cases v with
      | null => exact performs_attempt
      | _ =>
        exact account.performs_alloc { className := subscriptionName, native := .handle false } rfl
          (fun _ _ => by simp) fun _ _ => rfl
  · exact account.performs_alloc { className := sourceName } rfl (fun _ _ => by simp) fun _ same =>
      by cases same
  · match args, free with
    | [], _ | [_], _ | _ :: _ :: _ :: _, _ => exact performs_attempt
    | [handle, container], free =>
      exact account.performs_add (free container (by simp)) (free handle (by simp)) (by simp)
  · cases args with
    | nil => exact performs_attempt
    | cons v rest => exact account.performs_subscriptionRelease rest (free v List.mem_cons_self)

/-- The helper brings the value on its way to an object into the container of the object. -/
theorem Account.performs_trackWith (account : Account w due events h none (only o v) owed)
    {object : Object} (there : h.get? o = some object) (free : h.IsFree w.field none v) :
    Performs w due events h owed (trackWith h [v, object.field w.field]) := by
  show Performs w due events h owed (attempt h (add h (object.field w.field) v (some v)))
  obtain ⟨e, failed⟩ | ⟨n, container, entries, released, content, there', native, done⟩ :=
    attempt_add h (object.field w.field) v (some v)
  · rw [failed]
    exact .failed
  have tracks : h.Tracks w.field o n := ⟨object, there, content⟩
  have holds : h.Holds n entries released := ⟨container, there', native⟩
  have changed : Account w due events
        (h.modify (Reactive.setNative (.container (entries ++ [v]) released)) n) none calm
        ((if released = true then [v] else []) ++ owed) ∧
      Later w events h none events
        (h.modify (Reactive.setNative (.container (entries ++ [v]) released)) n) none := by
    refine account.setNative calm _ there' ?_ ?_ ?_ ?_ ?_ fun v listed =>
      .inl (List.mem_append_right _ listed)
    · intro entries' released' same v' listed
      cases same
      obtain old | new := List.mem_append.1 listed
      · exact account.ordered.entries n entries released holds v' old
      · exact List.mem_singleton.1 new ▸ free
    · intro b impossible
      cases impossible
    · intro o' tracks' entries' released' native'
      rw [native] at native'
      cases native'
      rw [account.ordered.alone o' o n tracks' tracks]
      refine ⟨_, _, rfl, ?_, id⟩
      rw [only, if_pos rfl]
      exact List.append_nil _
    · intro o' untracked _
      have other : o ≠ o' := fun same => untracked (same ▸ tracks)
      rw [only, if_neg other]
      rfl
    · intro entries' same counts v' listed
      cases same
      obtain old | new := List.mem_append.1 listed
      · exact (account.debts n entries holds counts v' old).imp_right (List.mem_append_right _)
      · exact .inr (List.mem_append_left _ new)
  obtain ⟨account', later⟩ := changed
  rw [done]
  refine .goesOn (fun v' same => ?_) (fun v' listed => later.free v' ?_) account' later
  · cases same
    exact later.free v free
  · split at listed
    · exact List.mem_singleton.1 listed ▸ free
    · cases listed

/-- The release of the container of an object. -/
theorem Account.performs_containerRelease (account : Account w due events h none calm owed)
    {object : Object} (there : h.get? o = some object) (rest : List Value) :
    Performs w due events h owed (containerRelease h (object.field w.field :: rest)) ∧
      ((∃ e, (containerRelease h (object.field w.field :: rest)).2 = .done (.error e)) ∨
        Over w events (containerRelease h (object.field w.field :: rest)).1 o) := by
  obtain ⟨e, failed⟩ | ⟨n, container, entries, released, content, there', native, done⟩ :=
    containerRelease_cons h (object.field w.field) rest
  · rw [failed]
    exact ⟨.failed, .inl ⟨e, rfl⟩⟩
  have tracks : h.Tracks w.field o n := ⟨object, there, content⟩
  have holds : h.Holds n entries released := ⟨container, there', native⟩
  rw [done]
  cases released with
  | true => exact ⟨account.performs_finish, .inr (account.over_of_released tracks holds)⟩
  | false =>
    rw [if_neg Bool.false_ne_true]
    have changed : Account w due events
          (h.modify (Reactive.setNative (.container entries true)) n) none calm (entries ++ owed) ∧
        Later w events h none events
          (h.modify (Reactive.setNative (.container entries true)) n) none := by
      refine account.setNative calm _ there' ?_ ?_ ?_ (fun _ _ _ => rfl) ?_ fun v listed =>
        .inl (List.mem_append_right _ listed)
      · intro entries' released' same v listed
        cases same
        exact account.ordered.entries n entries false holds v listed
      · intro b impossible
        cases impossible
      · intro o' tracks' entries' released' native'
        rw [native] at native'
        cases native'
        exact ⟨_, _, rfl, rfl, fun impossible => by cases impossible⟩
      · intro entries' same _ v listed
        cases same
        exact .inr (List.mem_append_left _ listed)
    obtain ⟨account', later⟩ := changed
    have tracks' : (h.modify (Reactive.setNative (.container entries true)) n).Tracks w.field o n :=
      (Heap.tracks_modify fun object => Heap.field_setNative _ object w.field).2 tracks
    have holds' : (h.modify (Reactive.setNative (.container entries true)) n).Holds n entries
        true := by
      refine ⟨Reactive.setNative (.container entries true) container, ?_, rfl⟩
      rw [Heap.get?_modify, if_pos rfl, there']
      rfl
    refine ⟨.goesOn (fun v impossible => by cases impossible) (fun v listed => later.free v ?_)
      account' later, .inr (account'.over_of_released tracks' holds')⟩
    exact account.ordered.entries n entries false holds v listed

end ReleaseWeaver.Machine
