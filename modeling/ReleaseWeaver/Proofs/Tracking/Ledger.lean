import ReleaseWeaver.Proofs.Tracking.Events
import ReleaseWeaver.Proofs.Tracking.Heap

/-
  The account of a run. The container of an object holds what the handle calls on the object have
  produced since its prologue, but for a value on its way into the container; and what a released
  container holds is released, but for what the code at work still owes. Each change of the heap
  keeps the account, and each event enters it.
-/

namespace ReleaseWeaver.Machine

open Reactive (setNative)

theorem producedOn_append (o : Nat) (events more : List Event) :
    producedOn o (events ++ more) = more.foldl (Event.record o) (producedOn o events) :=
  List.foldl_append

/-- The object has its container, and if it has had no other one, the container is released. -/
def Over (w : Watch) (events : List Event) (h : Heap) (o : Nat) : Prop :=
  .prologue o ∈ events ∧
    (events.count (.prologue o) = 1 → ∃ n entries, h.Tracks w.field o n ∧ h.Holds n entries true)

/-- `inflight` are the values on their way into the container of an object, `owed` those that are
still to be released for the containers that are `due`. -/
structure Account (w : Watch) (due : Nat → Prop) (events : List Event) (h : Heap)
    (flight : Option Nat) (inflight : Nat → List Value) (owed : List Value) : Prop where
  ordered : h.Ordered w.field flight
  ledger : ∀ o, .prologue o ∈ events → ∃ n entries released, h.Tracks w.field o n ∧
    h.Holds n entries released ∧ entries ++ inflight o = producedOn o events
  started : ∀ o n, h.Tracks w.field o n → .prologue o ∈ events
  finished : ∀ o, .left o ∈ events → Over w events h o
  debts : ∀ n entries, h.Holds n entries true → due n → ∀ v ∈ entries, h.IsQuiet v ∨ v ∈ owed

/-- What a step leaves to those who wait. -/
structure Later (w : Watch) (events : List Event) (h : Heap) (flight : Option Nat)
    (events' : List Event) (h' : Heap) (flight' : Option Nat) : Prop where
  free : ∀ v, h.IsFree w.field flight v → h'.IsFree w.field flight' v
  finished : ∀ o, Over w events h o → Over w events' h' o

theorem Later.refl (w : Watch) (events : List Event) (h : Heap) (flight : Option Nat) :
    Later w events h flight events h flight :=
  ⟨fun _ free => free, fun _ finished => finished⟩

theorem Heap.tracking?_eq_some {h : Heap} {field : String} {o : Nat} {entries : List Value}
    {released : Bool} : h.tracking? field o = some (entries, released) ↔
    ∃ n, h.Tracks field o n ∧ h.Holds n entries released := by
  constructor
  · intro tracked
    unfold tracking? at tracked
    split at tracked
    · next n content =>
      obtain ⟨object, there, content⟩ := Option.map_eq_some_iff.1 content
      split at tracked
      · next native =>
        obtain ⟨container, found, native⟩ := Option.map_eq_some_iff.1 native
        cases tracked
        exact ⟨n, ⟨object, there, content⟩, container, found, native⟩
      · cases tracked
    · cases tracked
  · rintro ⟨n, ⟨object, there, content⟩, container, found, native⟩
    unfold tracking?
    simp only [there, content, found, native, Option.map_some]

theorem Heap.isOpen_of_isQuiet {h : Heap} {v : Value} (quiet : h.IsQuiet v) :
    h.isOpen v = false := by
  cases v with
  | object k =>
    cases there : h.get? k with
    | none => rw [isOpen, there, Option.any_none]
    | some entry =>
      rw [isOpen, there, Option.any_some, beq_eq_false_iff_ne]
      intro native
      cases quiet k false rfl ⟨entry, there, native⟩
  | _ => rfl

/-- Nothing is on its way into a container. -/
def calm (_ : Nat) : List Value := []

theorem account_empty (w : Watch) (due : Nat → Prop) : Account w due [] {} none calm [] where
  ordered := Heap.ordered_empty w.field
  ledger := fun _ impossible => by cases impossible
  started := by
    rintro o n ⟨_, there, _⟩
    cases o <;> cases there
  finished := fun _ impossible => by cases impossible
  debts := by
    rintro n entries ⟨_, there, _⟩
    cases n <;> cases there

namespace Account

variable {w : Watch} {due : Nat → Prop} {events : List Event} {h : Heap} {flight : Option Nat}
  {inflight : Nat → List Value} {owed : List Value} {n o : Nat} {v : Value}

/-- The container of an object with a prologue, whatever it holds. -/
theorem over_of_released (account : Account w due events h flight inflight owed)
    (tracks : h.Tracks w.field o n) {entries : List Value} (holds : h.Holds n entries true) :
    Over w events h o :=
  ⟨account.started o n tracks, fun _ => ⟨n, entries, tracks, holds⟩⟩

/-! ## Events -/

theorem left (account : Account w due events h flight inflight owed) (finished : Over w events h o) :
    Account w due (events ++ [.left o]) h flight inflight owed ∧
      Later w events h flight (events ++ [.left o]) h flight := by
  have kept (o' : Nat) (finished' : Over w events h o') : Over w (events ++ [.left o]) h o' := by
    refine ⟨List.mem_append_left _ finished'.1, fun once => finished'.2 ?_⟩
    simpa [List.count_append] using once
  refine ⟨⟨account.ordered, fun o' listed => ?_, fun o' n' tracks => ?_, fun o' listed => ?_,
    account.debts⟩, fun _ free => free, kept⟩
  · rw [producedOn_append]
    exact account.ledger o' (by simpa using listed)
  · exact List.mem_append_left _ (account.started o' n' tracks)
  · obtain old | new := List.mem_append.1 listed
    · exact kept o' (account.finished o' old)
    · cases List.mem_singleton.1 new
      exact kept o finished

/-- The values of one object. -/
def only (o : Nat) (v : Value) (o' : Nat) : List Value := if o = o' then [v] else []

theorem produced (account : Account w due events h flight calm owed) (o : Nat) (v : Value) :
    Account w due (events ++ [.produced o v]) h flight (only o v) owed ∧
      Later w events h flight (events ++ [.produced o v]) h flight := by
  have kept (o' : Nat) (finished' : Over w events h o') :
      Over w (events ++ [.produced o v]) h o' := by
    refine ⟨List.mem_append_left _ finished'.1, fun once => finished'.2 ?_⟩
    simpa [List.count_append] using once
  refine ⟨⟨account.ordered, fun o' listed => ?_, fun o' n' tracks => ?_, fun o' listed => ?_,
    account.debts⟩, fun _ free => free, kept⟩
  · obtain ⟨n, entries, released, tracks, holds, same⟩ :=
      account.ledger o' (by simpa using listed)
    refine ⟨n, entries, released, tracks, holds, ?_⟩
    rw [calm, List.append_nil] at same
    rw [producedOn_append, ← same]
    show entries ++ only o v o' = if o = o' then entries ++ [v] else entries
    unfold only
    split
    · rfl
    · exact List.append_nil entries
  · exact List.mem_append_left _ (account.started o' n' tracks)
  · exact kept o' (account.finished o' (by simpa using listed))

/-! ## Changes of the heap -/

/-- A new object; an empty container may be on its way into a tracking field. -/
theorem alloc (account : Account w due events h none inflight owed) (flight : Option Nat)
    {object : Object} (blank : object.fields = [])
    (empty : ∀ entries released, object.native = .container entries released → entries = [])
    (handle : ∀ b, object.native = .handle b → object.className = Reactive.subscriptionName)
    (landing : flight = none ∨ flight = some (h.objects.size + 1) ∧
      object.className = containerName ∧ object.native = .container [] false) :
    Account w due events (h.alloc object).1 flight inflight owed ∧
      Later w events h none events (h.alloc object).1 flight := by
  have kept (o : Nat) (finished : Over w events h o) : Over w events (h.alloc object).1 o := by
    refine ⟨finished.1, fun once => ?_⟩
    obtain ⟨n, entries, tracks, holds⟩ := finished.2 once
    exact ⟨n, entries, (Heap.tracks_alloc blank).2 tracks, Heap.holds_alloc holds⟩
  refine ⟨⟨account.ordered.alloc blank empty handle landing, fun o listed => ?_, fun o n tracks => ?_,
    fun o listed => kept o (account.finished o listed), ?_⟩, fun v free => ?_, kept⟩
  · obtain ⟨n, entries, released, tracks, holds, same⟩ := account.ledger o listed
    exact ⟨n, entries, released, (Heap.tracks_alloc blank).2 tracks, Heap.holds_alloc holds, same⟩
  · exact account.started o n ((Heap.tracks_alloc blank).1 tracks)
  · rintro n entries ⟨old, there, native⟩ counts v listed
    rw [Heap.get?_alloc] at there
    split at there
    · cases there
      rw [empty entries true native] at listed
      cases listed
    · have holds : h.Holds n entries true := ⟨_, there, native⟩
      exact (account.debts n entries holds counts v listed).imp_left
        (Heap.isQuiet_alloc (account.ordered.entries n entries true holds v listed))
  · exact Heap.isFree_alloc blank free (landing.imp_right And.left)

/-- An ordinary field takes a free value. -/
theorem setField (account : Account w due events h none inflight owed) {name : String}
    (other : name ≠ w.field) (free : h.IsFree w.field none v) :
    Account w due events (h.modify (·.setField name v) n) none inflight owed ∧
      Later w events h none events (h.modify (·.setField name v) n) none := by
  have fields (object : Object) : (object.setField name v).field w.field =
      object.field w.field := by
    rw [Heap.field_setField, if_neg (Ne.symm other)]
  have kept (o : Nat) (finished : Over w events h o) :
      Over w events (h.modify (·.setField name v) n) o := by
    refine ⟨finished.1, fun once => ?_⟩
    obtain ⟨k, entries, tracks, released⟩ := finished.2 once
    exact ⟨k, entries, (Heap.tracks_modify fields).2 tracks,
      Heap.holds_setField.2 released⟩
  refine ⟨⟨account.ordered.setField other free, fun o listed => ?_, fun o k tracks => ?_,
    fun o listed => kept o (account.finished o listed), fun k entries holds counts v' listed => ?_⟩,
    fun v' free' => (Heap.isFree_modify fields).2 free', kept⟩
  · obtain ⟨k, entries, released, tracks, holds, same⟩ := account.ledger o listed
    exact ⟨k, entries, released, (Heap.tracks_modify fields).2 tracks,
      Heap.holds_setField.2 holds, same⟩
  · exact account.started o k ((Heap.tracks_modify fields).1 tracks)
  · rw [Heap.isQuiet_setField]
    exact account.debts k entries (Heap.holds_setField.1 holds) counts v' listed

/-- A prologue stores its container in the tracking field of an object. -/
theorem store (account : Account w due events h (some n) calm owed) {object : Object}
    (there : h.get? o = some object) :
    Account w due (events ++ [.prologue o]) (h.modify (·.setField w.field (.object n)) o) none calm
        owed ∧
      Later w events h (some n) (events ++ [.prologue o])
        (h.modify (·.setField w.field (.object n)) o) none := by
  obtain ⟨untracked, container, found, _, empty⟩ := account.ordered.flying n rfl
  have kept (o' : Nat) (finished : Over w events h o') : Over w (events ++ [.prologue o])
      (h.modify (·.setField w.field (.object n)) o) o' := by
    refine ⟨List.mem_append_left _ finished.1, fun once => ?_⟩
    rw [List.count_append, List.count_singleton] at once
    have before : 0 < events.count (.prologue o') := List.count_pos_iff.2 finished.1
    by_cases same : o' = o
    · rw [same] at before once
      rw [if_pos (beq_self_eq_true _)] at once
      omega
    · have other : (Event.prologue o == Event.prologue o') = false :=
        beq_false_of_ne fun eq => same (Event.prologue.inj eq).symm
      rw [other, if_neg Bool.false_ne_true] at once
      obtain ⟨k, entries, tracks, released⟩ := finished.2 once
      exact ⟨k, entries, (Heap.tracks_store there).2 (.inr ⟨same, tracks⟩),
        Heap.holds_setField.2 released⟩
  refine ⟨⟨account.ordered.store there, fun o' listed => ?_, fun o' k tracks => ?_,
    fun o' listed => ?_, fun k entries holds counts v listed => ?_⟩,
    fun v free => Heap.isFree_store there free, kept⟩
  · rw [producedOn_append]
    by_cases same : o' = o
    · refine ⟨n, [], false, (Heap.tracks_store there).2 (.inl ⟨same, rfl⟩),
        Heap.holds_setField.2 ⟨container, found, empty⟩, ?_⟩
      exact (if_pos same.symm).symm
    · have old : .prologue o' ∈ events := by
        obtain old | new := List.mem_append.1 listed
        · exact old
        · exact absurd (Event.prologue.inj (List.mem_singleton.1 new)) same
      obtain ⟨k, entries, released, tracks, holds, eq⟩ := account.ledger o' old
      refine ⟨k, entries, released, (Heap.tracks_store there).2 (.inr ⟨same, tracks⟩),
        Heap.holds_setField.2 holds, ?_⟩
      rw [eq]
      exact (if_neg (Ne.symm same)).symm
  · obtain ⟨rfl, _⟩ | ⟨_, tracks'⟩ := (Heap.tracks_store there).1 tracks
    · exact List.mem_append_right _ (List.mem_singleton_self _)
    · exact List.mem_append_left _ (account.started o' k tracks')
  · exact kept o' (account.finished o' (by simpa using listed))
  · rw [Heap.isQuiet_setField]
    exact account.debts k entries (Heap.holds_setField.1 holds) counts v listed

/-- The native part of an object changes: a container in a tracking field stays one and agrees
with what is on its way into it, a handle is released, and what is released otherwise is owed. -/
theorem setNative (account : Account w due events h none inflight owed)
    (inflight' : Nat → List Value) (owed' : List Value) {object : Object} {native : Native}
    (there : h.get? n = some object)
    (free : ∀ entries released, native = .container entries released → ∀ v ∈ entries,
      h.IsFree w.field none v)
    (handle : ∀ b, native = .handle b → b = true ∧ ∃ b', object.native = .handle b')
    (tracked : ∀ o, h.Tracks w.field o n → ∀ entries released,
      object.native = .container entries released → ∃ entries' released',
        native = .container entries' released' ∧
        entries' ++ inflight' o = entries ++ inflight o ∧ (released = true → released' = true))
    (others : ∀ o, ¬h.Tracks w.field o n → .prologue o ∈ events → inflight' o = inflight o)
    (debts : ∀ entries, native = .container entries true → due n → ∀ v ∈ entries,
      h.IsQuiet v ∨ v ∈ owed')
    (paid : ∀ v ∈ owed, v ∈ owed' ∨ (h.modify (Reactive.setNative native) n).IsQuiet v) :
    Account w due events (h.modify (Reactive.setNative native) n) none inflight' owed' ∧
      Later w events h none events (h.modify (Reactive.setNative native) n) none := by
  have fields (object : Object) : (Reactive.setNative native object).field w.field =
      object.field w.field := rfl
  have after : (h.modify (Reactive.setNative native) n).get? n =
      some (Reactive.setNative native object) := by
    rw [Heap.get?_modify, if_pos rfl, there]
    rfl
  have elsewhere {k : Nat} (other : k ≠ n) {entries : List Value} {released : Bool} :
      (h.modify (Reactive.setNative native) n).Holds k entries released ↔
        h.Holds k entries released := by
    unfold Heap.Holds
    rw [Heap.get?_modify, if_neg other]
  have quiet (v : Value) (before : h.IsQuiet v) :
      (h.modify (Reactive.setNative native) n).IsQuiet v := by
    rintro k released same ⟨new, found, was⟩
    obtain ⟨old, there', ⟨rfl, rfl⟩ | ⟨_, rfl⟩⟩ := Heap.get?_modify_eq_some found
    · exact (handle released was).1
    · exact before k released same ⟨_, there', was⟩
  have kept (o : Nat) (finished : Over w events h o) :
      Over w events (h.modify (Reactive.setNative native) n) o := by
    refine ⟨finished.1, fun once => ?_⟩
    obtain ⟨k, entries, tracks, holds⟩ := finished.2 once
    by_cases here : k = n
    · subst here
      obtain ⟨object', there', was⟩ := holds
      rw [there] at there'
      cases there'
      obtain ⟨entries', released', now, _, still⟩ := tracked o tracks entries true was
      rw [still rfl] at now
      exact ⟨k, entries', (Heap.tracks_modify fields).2 tracks, _, after, now⟩
    · exact ⟨k, entries, (Heap.tracks_modify fields).2 tracks, (elsewhere here).2 holds⟩
  refine ⟨⟨account.ordered.setNative there free (fun b same => (handle b same).2)
      fun o tracks => ?_, fun o listed => ?_, fun o k tracks => ?_,
    fun o listed => kept o (account.finished o listed), fun k entries holds counts v listed => ?_⟩,
    fun v free' => (Heap.isFree_modify fields).2 free', kept⟩
  · obtain ⟨object', entries, released, there', _, was⟩ := account.ordered.tracked o n tracks
    rw [there] at there'
    cases there'
    obtain ⟨entries', released', now, _⟩ := tracked o tracks entries released was
    exact ⟨entries', released', now⟩
  · obtain ⟨k, entries, released, tracks, holds, same⟩ := account.ledger o listed
    by_cases here : k = n
    · subst here
      obtain ⟨object', there', was⟩ := holds
      rw [there] at there'
      cases there'
      obtain ⟨entries', released', now, agree, _⟩ := tracked o tracks entries released was
      exact ⟨k, entries', released', (Heap.tracks_modify fields).2 tracks, ⟨_, after, now⟩,
        agree.trans same⟩
    · have untracked : ¬h.Tracks w.field o n := fun tracks' => here (tracks.unique tracks')
      refine ⟨k, entries, released, (Heap.tracks_modify fields).2 tracks, (elsewhere here).2 holds,
        ?_⟩
      rw [others o untracked listed]
      exact same
  · exact account.started o k ((Heap.tracks_modify fields).1 tracks)
  · by_cases here : k = n
    · subst here
      obtain ⟨new, found, now⟩ := holds
      rw [after] at found
      cases found
      exact (debts entries now counts v listed).imp_left (quiet v)
    · obtain before | owed := account.debts k entries ((elsewhere here).1 holds) counts v listed
      · exact .inl (quiet v before)
      · exact (paid v owed).symm

end Account

end ReleaseWeaver.Machine
