import Mathlib.Logic.Relation
import ReleaseWeaver.Proofs.Machine.Budget
import ReleaseWeaver.Proofs.Tracking.Chaining
import ReleaseWeaver.Sample.Scenario

/-
  Containers in containers. The entries of a family of containers are subscriptions and containers
  of the family again; they may be shared, and containers may contain one another or themselves. A
  container is marked as released before its entries are, so in the course of a release it owes
  the release of those that wait. What is owed beyond the code that waits was owed before, and that
  is what the proof carries along the recursion. Main statements: `Program.releaseAll_turns`, for
  the release of some values, and the same for all that a host does with containers: every operation
  ends, and what a released container holds is released.
-/

namespace ReleaseWeaver.Machine

open Reactive

/-! ## What a heap keeps -/

/-- A native part later on: entries have come after the old ones, and what is released stays so. -/
inductive Native.Grows (added : List Value) : Native → Native → Prop where
  | plain : Grows added .plain .plain
  | container {entries released released'} : (released = true → released' = true) →
      Grows added (.container entries released) (.container (entries ++ added) released')
  | handle {released released'} : (released = true → released' = true) →
      Grows added (.handle released) (.handle released')

/-- An object later on. -/
structure Object.Grows (added : List Value) (o o' : Object) : Prop where
  className : o'.className = o.className
  fields : o'.fields = o.fields
  native : o.native.Grows added o'.native

namespace Heap

/-- The same objects later on, with the entries that have come to each. -/
def Grows (added : Nat → List Value) (h h' : Heap) : Prop :=
  ∀ n, Option.Rel (Object.Grows (added n)) (h.get? n) (h'.get? n)

/-- The object, whatever it is, is released. -/
def Disposed (h : Heap) (n : Nat) : Prop := h.isReleased (.object n) = .ok true

/-- The second object is an entry of the first. -/
def HasEntry (h : Heap) (n k : Nat) : Prop :=
  ∃ entries released, h.Holds n entries released ∧ .object k ∈ entries

/-- One comes from the first object to the second through entries. -/
def Reaches (h : Heap) : Nat → Nat → Prop := Relation.ReflTransGen h.HasEntry

/-- A container is released, and one of its entries is not. -/
def Owes (h : Heap) (n k : Nat) : Prop := h.Disposed n ∧ h.HasEntry n k ∧ ¬h.Disposed k

def IsContainer (h : Heap) (n : Nat) : Prop :=
  ∃ object entries released, h.get? n = some object ∧ object.className = containerName ∧
    object.native = .container entries released

def IsSubscription (h : Heap) (n : Nat) : Prop :=
  ∃ object released, h.get? n = some object ∧ object.className = subscriptionName ∧
    object.native = .handle released

end Heap

/-- The value is an object of the family. -/
def Value.In (member : Nat → Prop) (v : Value) : Prop := ∃ n, v = .object n ∧ member n

/-- A family of subscriptions and of containers with entries in the family. -/
structure Heap.Nested (h : Heap) (member : Nat → Prop) : Prop where
  kinds : ∀ n, member n → h.IsContainer n ∨ h.IsSubscription n
  entries : ∀ n entries released, member n → h.Holds n entries released →
    ∀ v ∈ entries, v.In member

/-- What some roots that are released and some new entries do to a heap. A release that was owed
before may stay so; no other one is owed, and nothing is released but what the roots and what was
released before lead to. -/
structure Heap.Turns (roots : Nat → Prop) (added : Nat → List Value) (h h' : Heap) : Prop where
  grows : h.Grows added h'
  disposed : ∀ n, roots n → h'.Disposed n
  debts : ∀ n k, h'.Owes n k → h.Owes n k
  reached : ∀ k, h'.Disposed k → ∃ n, (h.Disposed n ∨ roots n) ∧ h'.Reaches n k

variable {h h₁ h' : Heap} {n k : Nat} {member roots roots' : Nat → Prop}
  {added added' : Nat → List Value} {values : List Value}

theorem Native.Grows.trans {old new : List Value} {a b c : Native} (first : a.Grows old b)
    (further : b.Grows new c) : a.Grows (old ++ new) c := by
  cases first with
  | plain =>
    cases further
    exact .plain
  | container stays =>
    cases further with
    | container stays' =>
      rw [List.append_assoc]
      exact .container fun released => stays' (stays released)
  | handle stays =>
    cases further with
    | handle stays' => exact .handle fun released => stays' (stays released)

theorem Native.Grows.refl (native : Native) : native.Grows [] native := by
  cases native with
  | plain => exact .plain
  | handle released => exact .handle id
  | container entries released =>
    have same : entries ++ [] = entries := List.append_nil entries
    have grows : (Native.container entries released).Grows []
        (.container (entries ++ []) released) := .container id
    rwa [same] at grows

theorem Object.Grows.isReleased {new : List Value} {o o' : Object} (grows : o.Grows new o')
    (released : o.isReleased = true) : o'.isReleased = true := by
  obtain ⟨className, fields, native⟩ := o
  obtain ⟨className', fields', native'⟩ := o'
  obtain ⟨rfl, rfl, native⟩ := grows
  cases native with
  | plain => exact released
  | container stays => exact stays released
  | handle stays => exact stays released

theorem Object.Grows.container {new entries : List Value} {released : Bool} {o o' : Object}
    (grows : o.Grows new o') (native : o.native = .container entries released) :
    ∃ released', o'.native = .container (entries ++ new) released' := by
  have later := grows.native
  rw [native] at later
  generalize o'.native = native' at later ⊢
  cases later with
  | container => exact ⟨_, rfl⟩

namespace Heap

theorem disposed_iff : h.Disposed n ↔ ∃ o, h.get? n = some o ∧ o.isReleased = true := by
  unfold Disposed isReleased object
  cases there : h.get? n with
  | none => simp [bind, Except.bind, there]
  | some o => simp [bind, Except.bind, pure, Except.pure, there]

theorem Disposed.congr (released : h.Disposed n) (same : h'.get? n = h.get? n) : h'.Disposed n := by
  rw [disposed_iff] at released ⊢
  rwa [same]

theorem HasEntry.congr (entry : h.HasEntry n k) (same : h'.get? n = h.get? n) :
    h'.HasEntry n k := by
  obtain ⟨entries, released, ⟨o, there, native⟩, listed⟩ := entry
  exact ⟨entries, released, ⟨o, same.trans there, native⟩, listed⟩

section Parts

variable {entries : List Value} {released : Bool}

theorem entries_eq_ok :
    h.entries (.object n) = .ok entries ↔ ∃ released, h.Holds n entries released := by
  unfold Heap.entries Holds object
  cases there : h.get? n with
  | none => simp [bind, Except.bind, there]
  | some o =>
    cases native : o.native <;> simp [bind, Except.bind, pure, Except.pure, there, native]

theorem Holds.disposed_iff (holds : h.Holds n entries released) :
    h.Disposed n ↔ released = true := by
  obtain ⟨o, there, native⟩ := holds
  rw [Heap.disposed_iff, there]
  simp [Object.isReleased, native]

theorem Holds.hasEntry_iff (holds : h.Holds n entries released) :
    h.HasEntry n k ↔ .object k ∈ entries := by
  refine ⟨fun ⟨_, _, holds', listed⟩ => ?_, fun listed => ⟨entries, released, holds, listed⟩⟩
  obtain ⟨rfl, rfl⟩ := holds.unique holds'
  exact listed

theorem IsHandle.disposed_iff (handle : h.IsHandle n released) :
    h.Disposed n ↔ released = true := by
  obtain ⟨o, there, native⟩ := handle
  rw [Heap.disposed_iff, there]
  simp [Object.isReleased, native]

theorem IsHandle.not_hasEntry (handle : h.IsHandle n released) : ¬h.HasEntry n k := by
  rintro ⟨_, _, ⟨o, there, native⟩, _⟩
  obtain ⟨o', there', native'⟩ := handle
  rw [there] at there'
  cases there'
  rw [native] at native'
  cases native'

end Parts

namespace Grows

theorem refl (h : Heap) : h.Grows (fun _ => []) h := by
  intro n
  cases h.get? n with
  | none => exact .none
  | some o => exact .some ⟨rfl, rfl, .refl o.native⟩

theorem trans (first : h.Grows added h₁) (further : h₁.Grows added' h') :
    h.Grows (fun n => added n ++ added' n) h' := by
  intro n
  have first := first n
  have further := further n
  generalize h.get? n = o, h₁.get? n = o₁, h'.get? n = o' at first further ⊢
  cases first with
  | none =>
    cases further
    exact .none
  | some first =>
    cases further with
    | some further =>
      exact .some ⟨further.className.trans first.className, further.fields.trans first.fields,
        first.native.trans further.native⟩

theorem exists_of_get? {o : Object} (grows : h.Grows added h') (there : h.get? n = some o) :
    ∃ o', h'.get? n = some o' ∧ o.Grows (added n) o' := by
  have grows := grows n
  rw [there] at grows
  generalize h'.get? n = o' at grows ⊢
  cases grows with
  | some grows => exact ⟨_, rfl, grows⟩

theorem exists_of_get?' {o' : Object} (grows : h.Grows added h') (there : h'.get? n = some o') :
    ∃ o, h.get? n = some o ∧ o.Grows (added n) o' := by
  have grows := grows n
  rw [there] at grows
  generalize h.get? n = o at grows ⊢
  cases grows with
  | some grows => exact ⟨_, rfl, grows⟩

/-- What is released stays released. -/
theorem disposed (grows : h.Grows added h') (released : h.Disposed n) : h'.Disposed n := by
  obtain ⟨o, there, was⟩ := disposed_iff.1 released
  obtain ⟨o', there', grows⟩ := grows.exists_of_get? there
  exact disposed_iff.2 ⟨o', there', grows.isReleased was⟩

theorem holds {entries : List Value} {released : Bool} (grows : h.Grows added h')
    (holds : h.Holds n entries released) :
    ∃ released', h'.Holds n (entries ++ added n) released' := by
  obtain ⟨o, there, native⟩ := holds
  obtain ⟨o', there', same⟩ := grows.exists_of_get? there
  obtain ⟨released', now⟩ := same.container native
  exact ⟨released', o', there', now⟩

theorem exists_of_holds {entries : List Value} {released : Bool} (grows : h.Grows added h')
    (holds : h'.Holds n entries released) :
    ∃ before released', entries = before ++ added n ∧ h.Holds n before released' := by
  obtain ⟨o', there, native⟩ := holds
  obtain ⟨o, there', same⟩ := grows.exists_of_get?' there
  have native' := same.native
  rw [native] at native'
  generalize now : o.native = earlier at native'
  cases native' with
  | container => exact ⟨_, _, rfl, o, there', now⟩

theorem hasEntry (grows : h.Grows added h') (entry : h.HasEntry n k) : h'.HasEntry n k := by
  obtain ⟨entries, released, holds, listed⟩ := entry
  obtain ⟨released', holds'⟩ := grows.holds holds
  exact ⟨_, _, holds', List.mem_append_left _ listed⟩

theorem reaches (grows : h.Grows added h') (reaches : h.Reaches n k) : h'.Reaches n k :=
  Relation.ReflTransGen.mono (fun _ _ => grows.hasEntry) _ _ reaches

end Grows

theorem IsContainer.grows (container : h.IsContainer n) (grows : h.Grows added h') :
    h'.IsContainer n := by
  obtain ⟨o, entries, released, there, named, native⟩ := container
  obtain ⟨o', there', same⟩ := grows.exists_of_get? there
  obtain ⟨released', now⟩ := same.container native
  exact ⟨o', _, released', there', same.className.trans named, now⟩

theorem IsSubscription.grows (subscription : h.IsSubscription n) (grows : h.Grows added h') :
    h'.IsSubscription n := by
  obtain ⟨o, released, there, named, native⟩ := subscription
  obtain ⟨o', there', same⟩ := grows.exists_of_get? there
  have native' := same.native
  rw [native] at native'
  generalize now : o'.native = later at native'
  cases native' with
  | handle => exact ⟨o', _, there', same.className.trans named, now⟩

/-- A family stays one when the entries that come are of the family. -/
theorem Nested.grows (nested : h.Nested member) (grows : h.Grows added h')
    (inside : ∀ n, ∀ v ∈ added n, v.In member) : h'.Nested member := by
  refine ⟨fun n belongs => (nested.kinds n belongs).imp (·.grows grows) (·.grows grows),
    fun n entries released belongs holds v listed => ?_⟩
  obtain ⟨before, released', rfl, holds'⟩ := grows.exists_of_holds holds
  obtain old | new := List.mem_append.1 listed
  · exact nested.entries n before released' belongs holds' v old
  · exact inside n v new

namespace Turns

theorem refl (h : Heap) : h.Turns (fun _ => False) (fun _ => []) h :=
  ⟨.refl h, fun _ impossible => impossible.elim, fun _ _ owes => owes,
    fun k released => ⟨k, .inl released, .refl⟩⟩

theorem trans (first : h.Turns roots added h₁) (further : h₁.Turns roots' added' h') :
    h.Turns (fun n => roots n ∨ roots' n) (fun n => added n ++ added' n) h' := by
  refine ⟨first.grows.trans further.grows, fun n root => ?_, fun n k owes => ?_,
    fun k released => ?_⟩
  · obtain root | root := root
    · exact further.grows.disposed (first.disposed n root)
    · exact further.disposed n root
  · exact first.debts n k (further.debts n k owes)
  · obtain ⟨n, released₁ | root, reaches⟩ := further.reached k released
    · obtain ⟨m, source, reaches₁⟩ := first.reached n released₁
      exact ⟨m, source.imp_right .inl, (further.grows.reaches reaches₁).trans reaches⟩
    · exact ⟨n, .inr (.inr root), reaches⟩

/-- If the family owes nothing at the start, a member that is released leads to members that are. -/
theorem disposed_of_reaches (turns : h.Turns roots added h') (nested : h'.Nested member)
    (clean : ∀ n k, member n → ¬h.Owes n k) (belongs : member n) (released : h'.Disposed n)
    (reaches : h'.Reaches n k) : member k ∧ h'.Disposed k := by
  induction reaches with
  | refl => exact ⟨belongs, released⟩
  | @tail m k _ entry ih =>
    obtain ⟨belongs', released'⟩ := ih
    have inside : member k := by
      obtain ⟨entries, released, holds, listed⟩ := entry
      obtain ⟨_, same, belongs⟩ := nested.entries m entries released belongs' holds _ listed
      exact Value.object.inj same ▸ belongs
    refine ⟨inside, Classical.byContradiction fun live => ?_⟩
    exact clean m k belongs' (turns.debts m k ⟨released', entry, live⟩)

end Turns

/-! ## What native code begins -/

/-- What native code has done to a heap when it goes on to release some values: the roots are marked
as released, and only the release of these values may be owed beyond what was. -/
structure Begins (member roots : Nat → Prop) (added : Nat → List Value) (h h₁ : Heap)
    (values : List Value) : Prop where
  grows : h.Grows added h₁
  members : ∀ v ∈ values, v.In member
  disposed : ∀ n, roots n → h₁.Disposed n
  marked : ∀ n, h₁.Disposed n → h.Disposed n ∨ roots n
  debts : ∀ n k, h₁.Owes n k → .object k ∉ values → h.Owes n k
  waiting : ∀ k, .object k ∈ values → ∃ n, (h.Disposed n ∨ roots n) ∧ h₁.HasEntry n k

/-- When the values are released, nothing is owed but what was. -/
theorem Begins.turns (begins : Begins member roots added h h₁ values)
    (turns : h₁.Turns (fun n => .object n ∈ values) (fun _ => []) h') :
    h.Turns roots added h' := by
  have grows := begins.grows.trans turns.grows
  simp only [List.append_nil] at grows
  refine ⟨grows, fun n root => turns.grows.disposed (begins.disposed n root),
    fun n k owes => ?_, fun k released => ?_⟩
  · have waits : .object k ∉ values := fun listed => owes.2.2 (turns.disposed k listed)
    exact begins.debts n k (turns.debts n k owes) waits
  · obtain ⟨n, released₁ | listed, reaches⟩ := turns.reached k released
    · exact ⟨n, begins.marked n released₁, reaches⟩
    · obtain ⟨m, source, entry⟩ := begins.waiting n listed
      exact ⟨m, source, .head (turns.grows.hasEntry entry) reaches⟩

section SetNative

variable {o : Object} {native : Native}

theorem get?_setNative_self (there : h.get? n = some o) (native : Native) :
    (h.modify (setNative native) n).get? n = some (setNative native o) := by
  rw [get?_modify, if_pos rfl, there]
  rfl

theorem get?_setNative_of_ne (native : Native) (other : k ≠ n) :
    (h.modify (setNative native) n).get? k = h.get? k := by
  rw [get?_modify, if_neg other]

theorem grows_setNative (there : h.get? n = some o) (grows : o.native.Grows (added n) native)
    (others : ∀ k, k ≠ n → added k = []) : h.Grows added (h.modify (setNative native) n) := by
  intro k
  by_cases same : k = n
  · subst same
    rw [get?_setNative_self there, there]
    exact .some ⟨rfl, rfl, grows⟩
  · rw [get?_setNative_of_ne native same, others k same]
    exact Grows.refl h k

/-- Only what the object itself owes has to be looked at. -/
theorem begins_setNative (there : h.get? n = some o) (grows : o.native.Grows (added n) native)
    (others : ∀ k, k ≠ n → added k = []) (members : ∀ v ∈ values, v.In member)
    (disposed : ∀ k, roots k → (h.modify (setNative native) n).Disposed k)
    (marked : (h.modify (setNative native) n).Disposed n → h.Disposed n ∨ roots n)
    (debts : ∀ k, (h.modify (setNative native) n).Disposed n →
      (h.modify (setNative native) n).HasEntry n k → .object k ∉ values →
      h.Disposed n ∧ h.HasEntry n k)
    (waiting : ∀ k, .object k ∈ values →
      (h.Disposed n ∨ roots n) ∧ (h.modify (setNative native) n).HasEntry n k) :
    Begins member roots added h (h.modify (setNative native) n) values := by
  have grows := grows_setNative there grows others
  refine ⟨grows, members, disposed, fun k released => ?_, fun m k owes unlisted => ?_,
    fun k listed => ⟨n, waiting k listed⟩⟩
  · by_cases same : k = n
    · subst same
      exact marked released
    · exact .inl (released.congr (get?_setNative_of_ne native same).symm)
  · obtain ⟨released, entry, live⟩ := owes
    have live' : ¬h.Disposed k := fun was => live (grows.disposed was)
    by_cases same : m = n
    · subst same
      obtain ⟨was, listed⟩ := debts k released entry unlisted
      exact ⟨was, listed, live'⟩
    · have unchanged := (get?_setNative_of_ne (h := h) native same).symm
      exact ⟨released.congr unchanged, entry.congr unchanged, live'⟩

end SetNative

end Heap

/-! ## Native code on a family -/

namespace Reactive

open Heap

variable {entries : List Value} {released : Bool} {item : Value} {result : Option Value}

theorem containerRelease_of_holds (holds : h.Holds n entries released) :
    containerRelease h [.object n] = if released then (h, releaseAll none [])
      else (h.modify (setNative (.container entries true)) n, releaseAll none entries) := by
  obtain ⟨o, there, native⟩ := holds
  have found : h.object (.object n) = .ok (n, o) := object_eq_ok.2 ⟨rfl, there⟩
  cases released <;>
    simp [containerRelease, receiver, attempt, finish, releaseAll, bind, Except.bind, pure,
      Except.pure, found, native]

theorem subscriptionRelease_of_isHandle (handle : h.IsHandle n released) :
    subscriptionRelease h [.object n] =
      (h.modify (setNative (.handle true)) n, releaseAll none []) := by
  obtain ⟨o, there, native⟩ := handle
  have found : h.object (.object n) = .ok (n, o) := object_eq_ok.2 ⟨rfl, there⟩
  simp [subscriptionRelease, receiver, attempt, finish, releaseAll, bind, Except.bind, pure,
    Except.pure, found, native]

theorem attempt_add_of_holds (holds : h.Holds n entries released) (item : Value)
    (result : Option Value) : attempt h (add h (.object n) item result) =
      (h.modify (setNative (.container (entries ++ [item]) released)) n,
        releaseAll result (if released then [item] else [])) := by
  obtain ⟨o, there, native⟩ := holds
  have found : h.object (.object n) = .ok (n, o) := object_eq_ok.2 ⟨rfl, there⟩
  simp [add, attempt, bind, Except.bind, pure, Except.pure, found, native]

/-- A container that is released for the first time hands its entries on; after that it does
nothing. -/
theorem begins_containerRelease (nested : h.Nested member) (belongs : member n)
    (holds : h.Holds n entries released) : ∃ h₁ values,
      containerRelease h [.object n] = (h₁, releaseAll none values) ∧
      Begins member (· = n) (fun _ => []) h h₁ values ∧
      (h₁.unreleased < h.unreleased ∨ values = [] ∧ h₁ = h) := by
  rw [containerRelease_of_holds holds]
  cases released with
  | true =>
    have already : h.Disposed n := holds.disposed_iff.2 rfl
    refine ⟨h, [], rfl, ?_, .inr ⟨rfl, rfl⟩⟩
    exact ⟨.refl h, List.forall_mem_nil _, fun k same => same ▸ already, fun k was => .inl was,
      fun _ _ owes _ => owes, fun k impossible => absurd impossible List.not_mem_nil⟩
  | false =>
    obtain ⟨o, there, native⟩ := holds
    have holds' : (h.modify (setNative (.container entries true)) n).Holds n entries true :=
      ⟨_, get?_setNative_self there _, rfl⟩
    refine ⟨_, entries, rfl, ?_, .inl (unreleased_release there native)⟩
    refine begins_setNative there ?_ (fun _ _ => rfl)
      (nested.entries n entries false belongs ⟨o, there, native⟩) ?_ (fun _ => .inr rfl) ?_ ?_
    · rw [native]
      have grows : (Native.container entries false).Grows [] (.container (entries ++ []) true) :=
        .container fun _ => rfl
      rwa [List.append_nil] at grows
    · intro k same
      exact same ▸ holds'.disposed_iff.2 rfl
    · intro k _ entry unlisted
      exact absurd (holds'.hasEntry_iff.1 entry) unlisted
    · exact fun k listed => ⟨.inr rfl, holds'.hasEntry_iff.2 listed⟩

theorem begins_subscriptionRelease (handle : h.IsHandle n released) : ∃ h₁,
    subscriptionRelease h [.object n] = (h₁, releaseAll none []) ∧
      Begins member (· = n) (fun _ => []) h h₁ [] ∧ h₁.unreleased = h.unreleased := by
  obtain ⟨o, there, native⟩ := handle
  have handle' : (h.modify (setNative (.handle true)) n).IsHandle n true :=
    ⟨_, get?_setNative_self there _, rfl⟩
  refine ⟨_, subscriptionRelease_of_isHandle ⟨o, there, native⟩, ?_,
    unreleased_setHandle there native true⟩
  refine begins_setNative there ?_ (fun _ _ => rfl) (List.forall_mem_nil _) ?_
    (fun _ => .inr rfl) ?_ fun k impossible => absurd impossible List.not_mem_nil
  · rw [native]
    exact .handle fun _ => rfl
  · intro k same
    exact same ▸ handle'.disposed_iff.2 rfl
  · exact fun k _ entry _ => absurd entry handle'.not_hasEntry

/-- A container that is released hands a late entry on at once. -/
theorem begins_add (holds : h.Holds n entries released) (item : Value) (belongs : item.In member)
    (result : Option Value) : ∃ h₁ values,
      attempt h (add h (.object n) item result) = (h₁, releaseAll result values) ∧
      Begins member (fun _ => False) (fun k => if k = n then [item] else []) h h₁ values := by
  rw [attempt_add_of_holds holds]
  have was := holds.disposed_iff
  have entry (k : Nat) := holds.hasEntry_iff (k := k)
  obtain ⟨o, there, native⟩ := holds
  have holds' : (h.modify (setNative (.container (entries ++ [item]) released)) n).Holds n
      (entries ++ [item]) released := ⟨_, get?_setNative_self there _, rfl⟩
  refine ⟨_, _, rfl, begins_setNative there ?_ (fun k other => if_neg other) ?_
    (fun _ impossible => impossible.elim) ?_ ?_ ?_⟩
  · rw [native, if_pos rfl]
    exact .container id
  · intro v listed
    cases released with
    | true => exact List.mem_singleton.1 listed ▸ belongs
    | false => cases listed
  · exact fun now => .inl (was.2 (holds'.disposed_iff.1 now))
  · intro k now listed unlisted
    have set := holds'.disposed_iff.1 now
    rw [if_pos set] at unlisted
    obtain old | new := List.mem_append.1 (holds'.hasEntry_iff.1 listed)
    · exact ⟨was.2 set, (entry k).2 old⟩
    · exact absurd new unlisted
  · intro k listed
    cases released with
    | true => exact ⟨.inl (was.2 rfl), holds'.hasEntry_iff.2 (List.mem_append_right _ listed)⟩
    | false => cases listed

end Reactive

/-! ## Releases -/

section Runs

variable {p : Program} {steps : Nat} {callers : List Caller} {o : Object} {code : NativeCode}

namespace Program

/-- Native code of the class of an object that is called by name. -/
theorem callOn_native (there : h.get? n = some o) {name : String}
    (known : p.natives (nativeName o.className name) = some code) (args : List Value) :
    p.callOn ⟨h, steps⟩ callers (.object n) name args =
      runNative ⟨h, steps⟩ callers (code h (.object n :: args)) := by
  have found : h.object (.object n) = .ok (n, o) := Heap.object_eq_ok.2 ⟨rfl, there⟩
  rw [callOn, found]
  dsimp only
  rw [lookup_native known]
  rfl

/-- … or by a method reference to it, dispatched or not. -/
theorem invoke_own (there : h.get? n = some o) {method : MethodRef}
    (own : method.declaring.definitionName = o.className)
    (known : p.natives (nativeName o.className method.name) = some code) (args : List Value)
    (isVirtual : Bool) :
    p.invoke ⟨h, steps⟩ callers { method, args := .object n :: args, isVirtual } =
      runNative ⟨h, steps⟩ callers (code h (.object n :: args)) := by
  refine invoke_native (?_ : p.startClass h _ = .ok o.className) known
  cases dispatched : isVirtual && method.hasThis && p.isVirtualMethod method with
  | true =>
    simp only [Bool.and_eq_true] at dispatched
    exact startClass_dispatched dispatched.1.1 dispatched.1.2 dispatched.2 rfl there
  | false =>
    rw [startClass, dispatched, ← own]
    rfl

/-- The disposal contract finds the native code of the class of an object. -/
theorem invoke_release (dispatches : p.isVirtualMethod Sample.disposableDispose = true)
    (there : h.get? n = some o) (known : p.natives (nativeName o.className "Dispose") = some code) :
    p.invoke ⟨h, steps⟩ callers (release (.object n)) =
      runNative ⟨h, steps⟩ callers (code h [.object n]) := by
  have start : p.startClass h (release (.object n)) = .ok o.className :=
    startClass_dispatched rfl rfl dispatches rfl there
  exact invoke_native start known

/-- The release of a member of a family hands on what the member has for entries. -/
theorem invoke_release_begins (library : p.natives = Reactive.natives)
    (dispatches : p.isVirtualMethod Sample.disposableDispose = true) (nested : h.Nested member)
    (belongs : member n) (steps : Nat) (callers : List Caller) : ∃ h₁ values,
      p.invoke ⟨h, steps⟩ callers (release (.object n)) =
        .running ⟨⟨h₁, steps⟩, .native (releaseAll none values), callers⟩ ∧
      Heap.Begins member (· = n) (fun _ => []) h h₁ values ∧
      (h₁.unreleased < h.unreleased ∨ values = [] ∧ h₁.unreleased = h.unreleased) := by
  obtain ⟨o, entries, released, there, named, native⟩ | ⟨o, released, there, named, native⟩ :=
    nested.kinds n belongs
  · obtain ⟨h₁, values, done, begins, fewer⟩ :=
      begins_containerRelease nested belongs ⟨o, there, native⟩
    have known : p.natives (nativeName o.className "Dispose") = some containerRelease := by
      rw [library, named]
      rfl
    rw [invoke_release dispatches there known, done]
    exact ⟨h₁, values, rfl, begins, fewer.imp_right fun ⟨nothing, same⟩ => ⟨nothing, same ▸ rfl⟩⟩
  · obtain ⟨h₁, done, begins, same⟩ := begins_subscriptionRelease ⟨o, there, native⟩
    have known : p.natives (nativeName o.className "Dispose") = some subscriptionRelease := by
      rw [library, named]
      rfl
    rw [invoke_release dispatches there known, done]
    exact ⟨h₁, [], rfl, begins, .inr ⟨rfl, same⟩⟩

/-- Native code that releases values of a family comes to its end, whatever is in them, with
nothing executed and nothing owed but what was. -/
theorem releaseAll_turns (library : p.natives = Reactive.natives)
    (dispatches : p.isVirtualMethod Sample.disposableDispose = true) {h : Heap}
    {values : List Value} (nested : h.Nested member) (inside : ∀ v ∈ values, v.In member)
    (steps : Nat) (callers : List Caller) (result : Option Value) : ∃ states h',
      p.Passes (.running ⟨⟨h, steps⟩, .native (releaseAll result values), callers⟩) states
        (.running ⟨⟨h', steps⟩, .native (.done (.ok result)), callers⟩) ∧
      h.Turns (fun n => .object n ∈ values) (fun _ => []) h' ∧
      h'.unreleased ≤ h.unreleased := by
  match values with
  | [] =>
    refine ⟨[], h, .start, ?_, Nat.le_refl _⟩
    simpa only [List.not_mem_nil] using Heap.Turns.refl h
  | v :: rest =>
    obtain ⟨⟨n, rfl, belongs⟩, inside'⟩ := List.forall_mem_cons.1 inside
    obtain ⟨h₁, entries, invoked, begins, fewer⟩ := invoke_release_begins library dispatches
      nested belongs steps (.native (afterRelease result rest) :: callers)
    have none_added : ∀ n, ∀ v ∈ (fun _ : Nat => ([] : List Value)) n, v.In member :=
      fun _ => List.forall_mem_nil _
    -- The statement is for all callers, so it holds of the entries over the code that waits.
    obtain ⟨states, h₂, entered, turns, left⟩ := releaseAll_turns library dispatches
      (nested.grows begins.grows none_added) begins.members steps
      (.native (afterRelease result rest) :: callers) none
    have turned := begins.turns turns
    obtain ⟨states', h₃, further, turns', left'⟩ := releaseAll_turns library dispatches
      (nested.grows turned.grows none_added) inside' steps callers result
    refine ⟨_, h₃, .cons ((invoked ▸ entered).step.trans further), ?_, by omega⟩
    have both := turned.trans turns'
    simpa only [List.mem_cons, Value.object.injEq, List.append_nil] using both
termination_by (h.unreleased, values.length)
decreasing_by
  -- Fewer containers are left to release, or as many and fewer values.
  · obtain less | ⟨rfl, same⟩ := fewer
    · exact Prod.Lex.left _ _ less
    · rw [same]
      exact Prod.Lex.right _ (Nat.succ_pos rest.length)
  · have le : h₂.unreleased ≤ h.unreleased := by omega
    obtain less | same := Nat.lt_or_eq_of_le le
    · exact Prod.Lex.left _ _ less
    · rw [same]
      exact Prod.Lex.right _ (Nat.lt_succ_self rest.length)

end Program

end Runs

/-! ## Operations on containers -/

/-- What a host does with the containers of a family. -/
inductive Operation where
  | add (container item : Nat)
  | trackWith (item container : Nat)
  | dispose (container : Nat)
deriving DecidableEq

namespace Operation

/-- The entries that come to a container. -/
def appends : Operation → Nat → List Value
  | add container item, n | trackWith item container, n =>
    if n = container then [.object item] else []
  | dispose _, _ => []

/-- The helper hands its handle back. -/
def answer : Operation → Option Value
  | trackWith item _ => some (.object item)
  | add _ _ | dispose _ => none

/-- The operation is on a container of the family, with an item of the family. -/
def Within (member : Nat → Prop) (h : Heap) : Operation → Prop
  | add container item | trackWith item container =>
    h.IsContainer container ∧ member container ∧ member item
  | dispose container => h.IsContainer container ∧ member container

/-- The requests that carry an operation out: calls of the methods of the container, dispatched or
not or by name, of the helper, and of the disposal contract. -/
inductive Asks : Operation → Request → Prop where
  | add {method container item} (isVirtual : Bool) :
      method.declaring.definitionName = containerName → method.name = "Add" →
      Asks (.add container item)
        (.invoke { method, args := [.object container, .object item], isVirtual })
  | addByName {container item} :
      Asks (.add container item) (.callByName (.object container) "Add" [.object item])
  | trackWith {method item container} (isVirtual : Bool) :
      method.declaring.definitionName = helperType → method.name = helperName →
      method.hasThis = false →
      Asks (.trackWith item container)
        (.invoke { method, args := [.object item, .object container], isVirtual })
  | dispose {method container} (isVirtual : Bool) :
      method.declaring.definitionName = containerName → method.name = "Dispose" →
      Asks (.dispose container) (.invoke { method, args := [.object container], isVirtual })
  | disposeByName {container} :
      Asks (.dispose container) (.callByName (.object container) "Dispose" [])
  | release {container} : Asks (.dispose container) (.invoke (release (.object container)))

end Operation

section Operations

variable {p : Program} {operation : Operation} {request : Request}

theorem Operation.Within.grows (within : operation.Within member h) (grows : h.Grows added h') :
    operation.Within member h' := by
  cases operation with
  | add | trackWith | dispose => exact within.imp_left (·.grows grows)

theorem Operation.Within.appends_in (within : operation.Within member h) (n : Nat) :
    ∀ v ∈ operation.appends n, v.In member := by
  intro v listed
  cases operation with
  | add container item | trackWith item container =>
    have listed : v ∈ if n = container then [.object item] else [] := listed
    split at listed
    · exact ⟨item, List.mem_singleton.1 listed, within.2.2⟩
    · cases listed
  | dispose container => cases listed

namespace Program

/-- An operation on a container runs the native code of the library. -/
theorem perform_begins (library : p.natives = Reactive.natives)
    (dispatches : p.isVirtualMethod Sample.disposableDispose = true) (nested : h.Nested member)
    (within : operation.Within member h) (asks : operation.Asks request) (steps : Nat) :
    ∃ h₁ values,
      p.perform ⟨h, steps⟩ [] request =
        .running ⟨⟨h₁, steps⟩, .native (releaseAll operation.answer values), []⟩ ∧
      Heap.Begins member (fun n => operation = .dispose n) operation.appends h h₁ values := by
  have known {o : Object} (named : o.className = containerName) {name called : String}
      {code : NativeCode} (same : called = name)
      (known : Reactive.natives (nativeName containerName name) = some code) :
      p.natives (nativeName o.className called) = some code := by
    rw [library, named, same]
    exact known
  -- The native code, and that every way to ask for the operation runs it.
  cases operation with
  | add container item =>
    obtain ⟨⟨o, entries, released, there, named, native⟩, _, belongs⟩ := within
    obtain ⟨h₁, values, done, begins⟩ := begins_add ⟨o, there, native⟩ (.object item)
      ⟨item, rfl, belongs⟩ none
    have done : containerAdd h [.object container, .object item] = _ := done
    have runs : p.perform ⟨h, steps⟩ [] request =
        runNative ⟨h, steps⟩ [] (containerAdd h [.object container, .object item]) := by
      cases asks with
      | add isVirtual own called =>
        exact invoke_own there (own.trans named.symm) (known named called rfl) _ isVirtual
      | addByName => exact callOn_native there (known named rfl rfl) _
    refine ⟨h₁, values, ?_, by simp only [reduceCtorEq]; exact begins⟩
    rw [runs, done]
    rfl
  | trackWith item container =>
    obtain ⟨⟨o, entries, released, there, named, native⟩, _, belongs⟩ := within
    obtain ⟨h₁, values, done, begins⟩ := begins_add ⟨o, there, native⟩ (.object item)
      ⟨item, rfl, belongs⟩ (some (.object item))
    have done : trackWith h [.object item, .object container] = _ := done
    have runs : p.perform ⟨h, steps⟩ [] request =
        runNative ⟨h, steps⟩ [] (trackWith h [.object item, .object container]) := by
      cases asks with
      | @trackWith method _ _ isVirtual own called static =>
        have start : p.startClass h ⟨method, [.object item, .object container], isVirtual⟩ =
            .ok helperType := by
          rw [startClass, static, Bool.and_false, Bool.false_and, ← own]
          rfl
        refine invoke_native start ?_
        rw [library, called]
        rfl
    refine ⟨h₁, values, ?_, by simp only [reduceCtorEq]; exact begins⟩
    rw [runs, done]
    rfl
  | dispose container =>
    obtain ⟨⟨o, entries, released, there, named, native⟩, belongs⟩ := within
    obtain ⟨h₁, values, done, begins, _⟩ :=
      begins_containerRelease nested belongs ⟨o, there, native⟩
    have runs : p.perform ⟨h, steps⟩ [] request =
        runNative ⟨h, steps⟩ [] (containerRelease h [.object container]) := by
      cases asks with
      | dispose isVirtual own called =>
        exact invoke_own there (own.trans named.symm) (known named called rfl) _ isVirtual
      | disposeByName => exact callOn_native there (known named rfl rfl) _
      | release => exact invoke_release dispatches there (known named rfl rfl)
    refine ⟨h₁, values, ?_, ?_⟩
    · rw [runs, done]
      rfl
    · simp only [Operation.dispose.injEq, eq_comm (a := container)]
      exact begins

/-- An operation comes to its end with its answer. -/
theorem outcome?_operation (library : p.natives = Reactive.natives)
    (dispatches : p.isVirtualMethod Sample.disposableDispose = true) (nested : h.Nested member)
    (within : operation.Within member h) (asks : operation.Asks request) (steps : Nat) : ∃ h',
      p.outcome? (p.perform ⟨h, steps⟩ [] request) =
        some (⟨h', steps⟩, .ok operation.answer) ∧
      h.Turns (fun n => operation = .dispose n) operation.appends h' := by
  obtain ⟨h₁, values, starts, begins⟩ :=
    perform_begins library dispatches nested within asks steps
  obtain ⟨states, h', passes, turns, _⟩ := releaseAll_turns library dispatches
    (nested.grows begins.grows within.appends_in) begins.members steps [] operation.answer
  refine ⟨h', ?_, begins.turns turns⟩
  rw [starts]
  exact outcome?_eq_some.2 ⟨_, passes.step.runFor⟩

/-- Carry requests out one after the other, each to its end: what they leave, and what they come
to. -/
def serve (p : Program) : Memory → List Request → Option (Memory × List Outcome)
  | m, [] => some (m, [])
  | m, request :: rest =>
    (p.outcome? (p.perform m [] request)).bind fun (m, outcome) =>
      (p.serve m rest).map fun (m, outcomes) => (m, outcome :: outcomes)

end Program

end Operations

/-- Operations come to their ends one after the other, and turn the heap by all that they do. -/
theorem serve_turns {module : Module}
    (dispatches : module.dispatchesTo disposable.definitionName "Dispose" = true) (limit : Nat)
    {memory : Memory} (nested : memory.heap.Nested member)
    {operations : List (Operation × Request)}
    (within : ∀ o ∈ operations, o.1.Within member memory.heap)
    (asks : ∀ o ∈ operations, o.1.Asks o.2) : ∃ h',
      (Reactive.program module limit).serve memory (operations.map (·.2)) =
        some (⟨h', memory.steps⟩, operations.map fun o => .ok o.1.answer) ∧
      h'.Nested member ∧
      memory.heap.Turns (fun n => .dispose n ∈ operations.map (·.1))
        (fun n => operations.flatMap (·.1.appends n)) h' := by
  induction operations generalizing memory with
  | nil =>
    refine ⟨memory.heap, rfl, nested, ?_⟩
    simp only [List.map_nil, List.not_mem_nil, List.flatMap_nil]
    exact .refl memory.heap
  | cons o operations ih =>
    obtain ⟨first, within⟩ := List.forall_mem_cons.1 within
    obtain ⟨asked, asks⟩ := List.forall_mem_cons.1 asks
    obtain ⟨h₁, ended, turns⟩ := Program.outcome?_operation (p := Reactive.program module limit)
      rfl dispatches nested first asked memory.steps
    obtain ⟨h', served, nested', turns'⟩ := @ih ⟨h₁, memory.steps⟩
      (nested.grows turns.grows first.appends_in)
      (fun o listed => (within o listed).grows turns.grows) asks
    refine ⟨h', ?_, nested', ?_⟩
    · rw [List.map_cons, Program.serve, ended, Option.bind_some]
      dsimp only
      rw [served]
      rfl
    · simp only [List.map_cons, List.mem_cons, List.flatMap_cons, eq_comm (b := o.1)]
      exact turns.trans turns'

/-- Whatever a host does with the containers of a family, every operation ends with its answer and
executes nothing. Entries come to the containers in the order in which they are added, what is
released stays so, and a container that is released owes the release of an entry only if it did so
before. So if none did, all that a released container leads to is released; and nothing is but what
an object leads to that was released before or is by one of the operations. -/
theorem operations_release_nested {module : Module}
    (dispatches : module.dispatchesTo disposable.definitionName "Dispose" = true) (limit : Nat)
    {memory : Memory} (nested : memory.heap.Nested member)
    {operations : List (Operation × Request)}
    (within : ∀ o ∈ operations, o.1.Within member memory.heap)
    (asks : ∀ o ∈ operations, o.1.Asks o.2) : ∃ h',
      (Reactive.program module limit).serve memory (operations.map (·.2)) =
        some (⟨h', memory.steps⟩, operations.map fun o => .ok o.1.answer) ∧
      h'.Nested member ∧
      (∀ n entries, memory.heap.entries (.object n) = .ok entries →
        h'.entries (.object n) = .ok (entries ++ operations.flatMap (·.1.appends n))) ∧
      (∀ n, memory.heap.Disposed n → h'.Disposed n) ∧
      (∀ n, .dispose n ∈ operations.map (·.1) → h'.Disposed n) ∧
      (∀ n k, h'.Owes n k → memory.heap.Owes n k) ∧
      ((∀ n k, member n → ¬memory.heap.Owes n k) →
        ∀ n k, member n → h'.Disposed n → h'.Reaches n k → h'.Disposed k) ∧
      ∀ k, h'.Disposed k →
        ∃ n, (memory.heap.Disposed n ∨ .dispose n ∈ operations.map (·.1)) ∧ h'.Reaches n k := by
  obtain ⟨h', served, nested', turns⟩ := serve_turns dispatches limit nested within asks
  refine ⟨h', served, nested', fun n entries held => ?_, fun n => turns.grows.disposed,
    turns.disposed, turns.debts, fun clean n k belongs released reaches =>
      (turns.disposed_of_reaches nested' clean belongs released reaches).2, turns.reached⟩
  obtain ⟨released, holds⟩ := Heap.entries_eq_ok.1 held
  exact Heap.entries_eq_ok.2 (turns.grows.holds holds)

/-- Two containers that contain one another, a subscription of both, and one on its own. -/
def Sample.ring : Heap where
  objects := #[
    { className := containerName, native := .container [.object 2, .object 3] false },
    { className := containerName, native := .container [.object 1] false },
    { className := subscriptionName, native := .handle false },
    { className := subscriptionName, native := .handle false }]

/-- The subscription is tracked in the second container, the first one is released, and the second
one, which is released with it, gets a late entry. -/
def Sample.ringOperations : List (Operation × Request) :=
  [(.trackWith 3 2,
      .invoke { method := Sample.trackWith, args := [.object 3, .object 2], isVirtual := false }),
    (.dispose 1, .invoke (release (.object 1))),
    (.add 2 4,
      .invoke { method := Sample.containerAdd, args := [.object 2, .object 4], isVirtual := true })]

theorem operations_release_nested_ring : ∃ h',
    (Reactive.program Sample.baseModule 0).serve { heap := Sample.ring }
        (Sample.ringOperations.map (·.2)) =
      some ({ heap := h' }, [.ok (some (.object 3)), .ok none, .ok none]) ∧
    h'.entries (.object 2) = .ok [.object 1, .object 3, .object 4] ∧ h'.Disposed 4 := by
  have kinds (n : Nat) (belongs : n ∈ [1, 2, 3, 4]) :
      Sample.ring.IsContainer n ∨ Sample.ring.IsSubscription n := by
    simp only [List.mem_cons, List.not_mem_nil, or_false] at belongs
    obtain rfl | rfl | rfl | rfl := belongs
    · exact .inl ⟨_, _, _, rfl, rfl, rfl⟩
    · exact .inl ⟨_, _, _, rfl, rfl, rfl⟩
    · exact .inr ⟨_, _, rfl, rfl, rfl⟩
    · exact .inr ⟨_, _, rfl, rfl, rfl⟩
  have entries (n : Nat) (entries : List Value) (released : Bool) (belongs : n ∈ [1, 2, 3, 4])
      (holds : Sample.ring.Holds n entries released) : ∀ v ∈ entries, v.In (· ∈ [1, 2, 3, 4]) := by
    obtain ⟨o, there, native⟩ := holds
    simp only [List.mem_cons, List.not_mem_nil, or_false] at belongs
    obtain rfl | rfl | rfl | rfl := belongs <;> cases there <;> cases native
    · exact List.forall_mem_cons.2 ⟨⟨2, rfl, by decide⟩,
        List.forall_mem_singleton.2 ⟨3, rfl, by decide⟩⟩
    · exact List.forall_mem_singleton.2 ⟨1, rfl, by decide⟩
  have clean (n k : Nat) (_ : n ∈ [1, 2, 3, 4]) : ¬Sample.ring.Owes n k := by
    rintro ⟨disposed, _⟩
    obtain ⟨o, there, released⟩ := Heap.disposed_iff.1 disposed
    cases n with
    | zero => cases there
    | succ n =>
      have live : ∀ o ∈ Sample.ring.objects.toList, o.isReleased = false := by decide
      rw [live o (Array.mem_toList_iff.2 (Array.mem_of_getElem? there))] at released
      cases released
  obtain ⟨h', served, nested, grown, stays, released, -, closed, -⟩ := @operations_release_nested
    (· ∈ [1, 2, 3, 4]) Sample.baseModule (by decide +kernel) 0 { heap := Sample.ring }
    ⟨kinds, entries⟩ Sample.ringOperations
    (List.forall_mem_cons.2 ⟨⟨⟨_, _, _, rfl, rfl, rfl⟩, by decide, by decide⟩,
      List.forall_mem_cons.2 ⟨⟨⟨_, _, _, rfl, rfl, rfl⟩, by decide⟩,
        List.forall_mem_singleton.2 ⟨⟨_, _, _, rfl, rfl, rfl⟩, by decide, by decide⟩⟩⟩)
    (List.forall_mem_cons.2 ⟨.trackWith false rfl rfl rfl,
      List.forall_mem_cons.2 ⟨.release, List.forall_mem_singleton.2 (.add true rfl rfl)⟩⟩)
  have first : h'.entries (.object 1) = .ok [.object 2, .object 3] := grown 1 _ rfl
  have second : h'.entries (.object 2) = .ok [.object 1, .object 3, .object 4] := grown 2 _ rfl
  have entry {n k : Nat} {entries : List Value} (held : h'.entries (.object n) = .ok entries)
      (listed : .object k ∈ entries) : h'.HasEntry n k := by
    obtain ⟨released, holds⟩ := Heap.entries_eq_ok.1 held
    exact ⟨entries, released, holds, listed⟩
  have reaches : h'.Reaches 1 4 :=
    .head (entry first (by decide)) (.single (entry second (by decide)))
  exact ⟨h', served, second, closed clean 1 4 (by decide) (released 1 (by decide)) reaches⟩

end ReleaseWeaver.Machine
