import ReleaseWeaver.Proofs.Machine.Exec
import ReleaseWeaver.Proofs.Tracking.Roles
import ReleaseWeaver.Machine.Reactive

/-
  The heap of a woven program. The containers in the tracking fields are kept apart: nothing but
  the one field names such a container, and a container on its way into a field is named by
  nothing at all. A new object, a store and a change of the native part of an object keep this
  order.
-/

namespace ReleaseWeaver.Machine.Heap

open Reactive (setNative)

variable {h : Heap} {field : String} {flight : Option Nat} {v : Value} {n o : Nat}

theorem get?_alloc (h : Heap) (object : Object) (k : Nat) :
    (h.alloc object).1.get? k = if k = h.objects.size + 1 then some object else h.get? k := by
  cases k with
  | zero => rfl
  | succ k =>
    show (h.objects.push object)[k]? = if k + 1 = h.objects.size + 1 then some object
      else h.objects[k]?
    rw [Array.getElem?_push]
    simp only [Nat.add_right_cancel_iff]

theorem get?_modify (h : Heap) (f : Object → Object) (n k : Nat) :
    (h.modify f n).get? k = if k = n then (h.get? k).map f else h.get? k := by
  cases n with
  | zero =>
    cases k with
    | zero => rfl
    | succ k => exact (if_neg (Nat.succ_ne_zero k)).symm
  | succ n =>
    cases k with
    | zero => exact (if_neg (Nat.succ_ne_zero n).symm).symm
    | succ k =>
      show (h.objects.modify n f)[k]? = if k + 1 = n + 1 then h.objects[k]?.map f
        else h.objects[k]?
      rw [Array.getElem?_modify]
      simp only [Nat.add_right_cancel_iff, eq_comm]

/-- A change of an object that has just been made. -/
theorem modify_alloc (h : Heap) (object : Object) (f : Object → Object) :
    (h.alloc object).1.modify f (h.objects.size + 1) = (h.alloc (f object)).1 := by
  show (⟨(h.objects.push object).modify h.objects.size f⟩ : Heap) = ⟨h.objects.push (f object)⟩
  congr 1
  refine Array.ext_getElem? fun k => ?_
  rw [Array.getElem?_modify, Array.getElem?_push, Array.getElem?_push]
  by_cases last : h.objects.size = k
  · rw [if_pos last, if_pos last.symm, if_pos last.symm]
    rfl
  · rw [if_neg last, if_neg (Ne.symm last), if_neg (Ne.symm last)]

theorem le_of_get? {object : Object} (there : h.get? n = some object) :
    n ≤ h.objects.size := by
  cases n with
  | zero => exact Nat.zero_le _
  | succ n =>
    obtain ⟨inside, _⟩ := Array.getElem?_eq_some_iff.1 there
    exact inside

/-! ## The order of the containers -/

/-- The tracking field of one object holds another one. -/
def Tracks (h : Heap) (field : String) (o n : Nat) : Prop :=
  ∃ object, h.get? o = some object ∧ object.field field = .object n

/-- The object is a container with these entries. -/
def Holds (h : Heap) (n : Nat) (entries : List Value) (released : Bool) : Prop :=
  ∃ object, h.get? n = some object ∧ object.native = .container entries released

/-- The value is no object, or one that is in no tracking field and on no way into one. -/
def IsFree (h : Heap) (field : String) (flight : Option Nat) (v : Value) : Prop :=
  ∀ n, v = .object n →
    (∃ object, h.get? n = some object) ∧ flight ≠ some n ∧ ∀ o, ¬h.Tracks field o n

/-- The object is a handle. -/
def IsHandle (h : Heap) (n : Nat) (released : Bool) : Prop :=
  ∃ object, h.get? n = some object ∧ object.native = .handle released

/-- The value is no handle, or a released one. -/
def IsQuiet (h : Heap) (v : Value) : Prop :=
  ∀ n released, v = .object n → h.IsHandle n released → released = true

/-- `flight` is a container on its way into a tracking field. -/
structure Ordered (h : Heap) (field : String) (flight : Option Nat) : Prop where
  contents : ∀ n object name, h.get? n = some object → name ≠ field →
    h.IsFree field flight (object.field name)
  tracked : ∀ o n, h.Tracks field o n → ∃ object entries released, h.get? n = some object ∧
    object.className = containerName ∧ object.native = .container entries released
  alone : ∀ o o' n, h.Tracks field o n → h.Tracks field o' n → o = o'
  entries : ∀ n entries released, h.Holds n entries released → ∀ v ∈ entries,
    h.IsFree field flight v
  handles : ∀ n object b, h.get? n = some object → object.native = .handle b →
    object.className = Reactive.subscriptionName
  flying : ∀ n, flight = some n → (∀ o, ¬h.Tracks field o n) ∧ ∃ object,
    h.get? n = some object ∧ object.className = containerName ∧
      object.native = .container [] false

theorem ordered_empty (field : String) : ({} : Heap).Ordered field none := by
  have nothing (n : Nat) : ({} : Heap).get? n = none := by
    cases n <;> rfl
  refine ⟨?_, ?_, ?_, ?_, ?_, ?_⟩
  · intro n object name there
    rw [nothing] at there
    cases there
  · rintro o n ⟨_, there, _⟩
    rw [nothing] at there
    cases there
  · rintro o _ n ⟨_, there, _⟩
    rw [nothing] at there
    cases there
  · rintro n _ _ ⟨_, there, _⟩
    rw [nothing] at there
    cases there
  · intro n object b there
    rw [nothing] at there
    cases there
  · intro n impossible
    cases impossible

theorem Holds.unique {entries entries' : List Value} {released released' : Bool}
    (holds : h.Holds n entries released) (holds' : h.Holds n entries' released') :
    entries = entries' ∧ released = released' := by
  obtain ⟨object, there, native⟩ := holds
  obtain ⟨object', there', native'⟩ := holds'
  rw [there] at there'
  cases there'
  rw [native] at native'
  cases native'
  exact ⟨rfl, rfl⟩

theorem Tracks.unique {k : Nat} (tracks : h.Tracks field o n) (tracks' : h.Tracks field o k) :
    n = k := by
  obtain ⟨object, there, content⟩ := tracks
  obtain ⟨object', there', content'⟩ := tracks'
  rw [there] at there'
  cases there'
  rw [content] at content'
  exact Value.object.inj content'

theorem isFree_of_ne (other : ∀ n, v ≠ .object n) : h.IsFree field flight v :=
  fun n same => absurd same (other n)

theorem isFree_object (there : ∃ object, h.get? n = some object) (grounded : flight ≠ some n)
    (untracked : ∀ o, ¬h.Tracks field o n) : h.IsFree field flight (.object n) := by
  intro k same
  cases same
  exact ⟨there, grounded, untracked⟩

/-! ## A new object -/

section Alloc

variable {object : Object}

theorem tracks_alloc (blank : object.fields = []) :
    (h.alloc object).1.Tracks field o n ↔ h.Tracks field o n := by
  unfold Tracks
  rw [get?_alloc]
  split
  · next fresh =>
    constructor
    · rintro ⟨_, same, content⟩
      cases same
      rw [Object.field, blank] at content
      cases content
    · rintro ⟨old, there, _⟩
      have := le_of_get? there
      omega
  · rfl

theorem get?_alloc_of_get? {old : Object} (there : h.get? n = some old) :
    (h.alloc object).1.get? n = some old := by
  have := le_of_get? there
  rw [get?_alloc, if_neg (by omega), there]

theorem isFree_alloc (blank : object.fields = []) (free : h.IsFree field none v)
    (landing : flight = none ∨ flight = some (h.objects.size + 1)) :
    (h.alloc object).1.IsFree field flight v := by
  intro n same
  obtain ⟨⟨old, there⟩, _, untracked⟩ := free n same
  refine ⟨⟨old, get?_alloc_of_get? there⟩, fun up => ?_, fun o tracks => ?_⟩
  · have := le_of_get? there
    obtain none | fresh := landing
    · rw [none] at up
      cases up
    · rw [fresh] at up
      cases up
      omega
  · exact untracked o ((tracks_alloc blank).1 tracks)

theorem isFree_fresh (blank : object.fields = []) (ordered : h.Ordered field none) :
    (h.alloc object).1.IsFree field none (.object (h.objects.size + 1)) := by
  refine isFree_object ⟨object, by rw [get?_alloc, if_pos rfl]⟩ (by simp) fun o tracks => ?_
  obtain ⟨old, _, _, there, _⟩ := ordered.tracked o _ ((tracks_alloc blank).1 tracks)
  have := le_of_get? there
  omega

/-- A new object has nothing in its fields; if it is to fly, it is an empty container. -/
theorem Ordered.alloc (ordered : h.Ordered field none) (blank : object.fields = [])
    (empty : ∀ entries released, object.native = .container entries released → entries = [])
    (handle : ∀ b, object.native = .handle b → object.className = Reactive.subscriptionName)
    (landing : flight = none ∨ flight = some (h.objects.size + 1) ∧
      object.className = containerName ∧ object.native = .container [] false) :
    (h.alloc object).1.Ordered field flight := by
  have landing' : flight = none ∨ flight = some (h.objects.size + 1) := landing.imp_right And.left
  refine ⟨?_, ?_, ?_, ?_, ?_, ?_⟩
  · intro n old name there other
    rw [get?_alloc] at there
    split at there
    · cases there
      rw [Object.field, blank]
      exact isFree_of_ne fun _ impossible => by cases impossible
    · exact isFree_alloc blank (ordered.contents n old name there other) landing'
  · intro o n tracks
    obtain ⟨old, entries, released, there, rest⟩ :=
      ordered.tracked o n ((tracks_alloc blank).1 tracks)
    exact ⟨old, entries, released, get?_alloc_of_get? there, rest⟩
  · intro o o' n tracks tracks'
    exact ordered.alone o o' n ((tracks_alloc blank).1 tracks) ((tracks_alloc blank).1 tracks')
  · rintro n entries released ⟨old, there, native⟩ v listed
    rw [get?_alloc] at there
    split at there
    · cases there
      rw [empty entries released native] at listed
      cases listed
    · exact isFree_alloc blank (ordered.entries n entries released ⟨_, there, native⟩ v listed)
        landing'
  · intro n old b there native
    rw [get?_alloc] at there
    split at there
    · cases there
      exact handle b native
    · exact ordered.handles n old b there native
  · intro n up
    obtain none | ⟨fresh, named, native⟩ := landing
    · rw [none] at up
      cases up
    · rw [fresh] at up
      cases up
      refine ⟨fun o tracks => ?_, object, by rw [get?_alloc, if_pos rfl], named, native⟩
      obtain ⟨old, _, _, there, _⟩ := ordered.tracked o _ ((tracks_alloc blank).1 tracks)
      have := le_of_get? there
      omega

theorem isQuiet_alloc (free : h.IsFree field none v) (quiet : h.IsQuiet v) :
    (h.alloc object).1.IsQuiet v := by
  rintro n released same ⟨new, there, native⟩
  obtain ⟨⟨old, there'⟩, _⟩ := free n same
  rw [get?_alloc_of_get? there'] at there
  cases there
  exact quiet n released same ⟨_, there', native⟩

theorem holds_alloc {entries : List Value} {released : Bool}
    (holds : h.Holds n entries released) : (h.alloc object).1.Holds n entries released := by
  obtain ⟨old, there, native⟩ := holds
  exact ⟨old, get?_alloc_of_get? there, native⟩

end Alloc

/-! ## Changes in place -/

section Modify

variable {f : Object → Object} {k : Nat}

theorem exists_modify {holds : Object → Prop} (same : ∀ object, holds (f object) ↔ holds object) :
    (∃ object, (h.modify f n).get? k = some object ∧ holds object) ↔
      ∃ object, h.get? k = some object ∧ holds object := by
  rw [get?_modify]
  split
  · simp only [Option.map_eq_some_iff]
    constructor
    · rintro ⟨_, ⟨object, there, rfl⟩, after⟩
      exact ⟨object, there, (same object).1 after⟩
    · rintro ⟨object, there, before⟩
      exact ⟨f object, ⟨object, there, rfl⟩, (same object).2 before⟩
  · rfl

theorem exists_get?_modify : (∃ object, (h.modify f n).get? k = some object) ↔
    ∃ object, h.get? k = some object := by
  have both : (∃ object, (h.modify f n).get? k = some object ∧ True) ↔
      ∃ object, h.get? k = some object ∧ True := exists_modify fun _ => Iff.rfl
  simpa only [and_true] using both

theorem tracks_modify (same : ∀ object, (f object).field field = object.field field) :
    (h.modify f n).Tracks field o k ↔ h.Tracks field o k :=
  exists_modify fun object => by rw [same]

theorem isFree_modify (same : ∀ object, (f object).field field = object.field field) :
    (h.modify f n).IsFree field flight v ↔ h.IsFree field flight v := by
  unfold IsFree
  simp only [exists_get?_modify, tracks_modify same]

theorem holds_modify (same : ∀ object, (f object).native = object.native) {entries : List Value}
    {released : Bool} : (h.modify f n).Holds k entries released ↔ h.Holds k entries released :=
  exists_modify fun object => by rw [same]

theorem isQuiet_modify (same : ∀ object, (f object).native = object.native) :
    (h.modify f n).IsQuiet v ↔ h.IsQuiet v := by
  have handles (k : Nat) (released : Bool) :
      (h.modify f n).IsHandle k released ↔ h.IsHandle k released :=
    exists_modify fun object => by rw [same]
  unfold IsQuiet
  simp only [handles]

theorem get?_modify_eq_some {object : Object} (there : (h.modify f n).get? k = some object) :
    ∃ old, h.get? k = some old ∧ (k = n ∧ object = f old ∨ k ≠ n ∧ object = old) := by
  rw [get?_modify] at there
  split at there
  · next here =>
    obtain ⟨old, there', rfl⟩ := Option.map_eq_some_iff.1 there
    exact ⟨old, there', .inl ⟨here, rfl⟩⟩
  · next other => exact ⟨object, there, .inr ⟨other, rfl⟩⟩

end Modify

@[simp] theorem field_setNative (native : Native) (object : Object) (name : String) :
    (setNative native object).field name = object.field name := rfl

@[simp] theorem native_setField (object : Object) (name : String) (content : Value) :
    (object.setField name content).native = object.native := rfl

theorem holds_setField {k : Nat} {name : String} {entries : List Value} {released : Bool} :
    (h.modify (·.setField name v) n).Holds k entries released ↔ h.Holds k entries released :=
  holds_modify fun object => native_setField object name v

theorem isQuiet_setField {name : String} {content : Value} :
    (h.modify (·.setField name content) n).IsQuiet v ↔ h.IsQuiet v :=
  isQuiet_modify fun object => native_setField object name content

theorem lookup_filter_ne {fields : List (String × Value)} {name name' : String}
    (other : name' ≠ name) :
    (fields.filter fun f => f.1 != name).lookup name' = fields.lookup name' := by
  induction fields with
  | nil => rfl
  | cons first rest ih =>
    obtain ⟨key, content⟩ := first
    by_cases same : key = name
    · have skip : (name' == key) = false := by
        rw [same]
        exact beq_false_of_ne other
      rw [List.filter_cons_of_neg (by simp [same]), List.lookup_cons, skip, ih]
    · rw [List.filter_cons_of_pos (by simp [same]), List.lookup_cons, List.lookup_cons, ih]

theorem field_setField (object : Object) (name name' : String) (content : Value) :
    (object.setField name content).field name' =
      if name' = name then content else object.field name' := by
  unfold Object.field Object.setField
  rw [List.lookup_cons]
  by_cases same : name' = name
  · simp [same]
  · rw [if_neg same, beq_false_of_ne same, lookup_filter_ne same]

/-- A container that is in a tracking field, or on its way there, stays a container of its class;
a handle does not come up from elsewhere. -/
theorem Ordered.setNative (ordered : h.Ordered field none) {object : Object} {native : Native}
    (there : h.get? n = some object)
    (free : ∀ entries released, native = .container entries released → ∀ v ∈ entries,
      h.IsFree field none v)
    (handle : ∀ b, native = .handle b → ∃ b', object.native = .handle b')
    (container : ∀ o, h.Tracks field o n → ∃ entries released,
      native = .container entries released) :
    (h.modify (setNative native) n).Ordered field none := by
  have fields (object : Object) : (Reactive.setNative native object).field field =
      object.field field := rfl
  refine ⟨?_, ?_, ?_, ?_, ?_, ?_⟩
  · intro k new name found other
    obtain ⟨old, there', ⟨rfl, rfl⟩ | ⟨_, rfl⟩⟩ := get?_modify_eq_some found
    · exact (isFree_modify fields).2 (ordered.contents k old name there' other)
    · exact (isFree_modify fields).2 (ordered.contents k new name there' other)
  · intro o k tracks
    have tracks' := (tracks_modify fields).1 tracks
    obtain ⟨old, entries, released, found, named, holds⟩ := ordered.tracked o k tracks'
    rw [get?_modify, found]
    by_cases here : k = n
    · obtain ⟨entries', released', eq⟩ := container o (here ▸ tracks')
      rw [if_pos here]
      exact ⟨_, entries', released', rfl, named, eq⟩
    · rw [if_neg here]
      exact ⟨old, entries, released, rfl, named, holds⟩
  · intro o o' k tracks tracks'
    exact ordered.alone o o' k ((tracks_modify fields).1 tracks) ((tracks_modify fields).1 tracks')
  · rintro k entries released ⟨new, found, holds⟩ v listed
    obtain ⟨old, there', ⟨rfl, rfl⟩ | ⟨_, rfl⟩⟩ := get?_modify_eq_some found
    · exact (isFree_modify fields).2 (free entries released holds v listed)
    · exact (isFree_modify fields).2 (ordered.entries k entries released ⟨_, there', holds⟩ v listed)
  · intro k new b found holds
    obtain ⟨old, there', ⟨rfl, rfl⟩ | ⟨_, rfl⟩⟩ := get?_modify_eq_some found
    · obtain ⟨b', was⟩ := handle b holds
      rw [there] at there'
      cases there'
      exact ordered.handles k object b' there was
    · exact ordered.handles k new b there' holds
  · intro k impossible
    cases impossible

/-- An ordinary field takes a free value. -/
theorem Ordered.setField (ordered : h.Ordered field none) {name : String} (other : name ≠ field)
    (free : h.IsFree field none v) :
    (h.modify (·.setField name v) n).Ordered field none := by
  have fields (object : Object) : (object.setField name v).field field = object.field field := by
    rw [field_setField, if_neg (Ne.symm other)]
  refine ⟨?_, ?_, ?_, ?_, ?_, ?_⟩
  · intro k new name' found other'
    rw [isFree_modify fields]
    obtain ⟨old, there, ⟨rfl, rfl⟩ | ⟨_, rfl⟩⟩ := get?_modify_eq_some found
    · rw [field_setField]
      split
      · exact free
      · exact ordered.contents k old name' there other'
    · exact ordered.contents k new name' there other'
  · intro o k tracks
    obtain ⟨old, entries, released, found, named, holds⟩ :=
      ordered.tracked o k ((tracks_modify fields).1 tracks)
    rw [get?_modify, found]
    split
    · exact ⟨_, entries, released, rfl, named, holds⟩
    · exact ⟨old, entries, released, rfl, named, holds⟩
  · intro o o' k tracks tracks'
    exact ordered.alone o o' k ((tracks_modify fields).1 tracks) ((tracks_modify fields).1 tracks')
  · intro k entries released holds v listed
    rw [isFree_modify fields]
    exact ordered.entries k entries released (holds_setField.1 holds) v listed
  · intro k new b found holds
    obtain ⟨old, there, ⟨rfl, rfl⟩ | ⟨_, rfl⟩⟩ := get?_modify_eq_some found
    · exact ordered.handles k old b there holds
    · exact ordered.handles k new b there holds
  · intro k impossible
    cases impossible

/-! ## The store of a prologue -/

section Store

variable {j k : Nat}

theorem tracks_store {object : Object} (there : h.get? k = some object) :
    (h.modify (·.setField field (.object n)) k).Tracks field o j ↔
      o = k ∧ j = n ∨ o ≠ k ∧ h.Tracks field o j := by
  unfold Tracks
  rw [get?_modify]
  by_cases here : o = k
  · rw [if_pos here, here, there]
    constructor
    · rintro ⟨_, same, content⟩
      cases same
      rw [field_setField, if_pos rfl] at content
      cases content
      exact .inl ⟨rfl, rfl⟩
    · rintro (⟨_, rfl⟩ | ⟨impossible, _⟩)
      · exact ⟨_, rfl, by rw [field_setField, if_pos rfl]⟩
      · exact absurd rfl impossible
  · rw [if_neg here]
    constructor
    · exact fun tracks => .inr ⟨here, tracks⟩
    · rintro (⟨impossible, _⟩ | ⟨_, tracks⟩)
      · exact absurd impossible here
      · exact tracks

theorem isFree_store {object : Object} (there : h.get? k = some object)
    (free : h.IsFree field (some n) v) :
    (h.modify (·.setField field (.object n)) k).IsFree field none v := by
  intro n' same
  obtain ⟨known, grounded, untracked⟩ := free n' same
  refine ⟨exists_get?_modify.2 known, by simp, fun o tracks => ?_⟩
  obtain ⟨_, rfl⟩ | ⟨_, tracks'⟩ := (tracks_store there).1 tracks
  · exact grounded rfl
  · exact untracked o tracks'

/-- The container on its way goes into the tracking field, in place of what was there. -/
theorem Ordered.store (ordered : h.Ordered field (some n)) {object : Object}
    (there : h.get? k = some object) :
    (h.modify (·.setField field (.object n)) k).Ordered field none := by
  obtain ⟨untracked, container, found, named, empty⟩ := ordered.flying n rfl
  have natives {j : Nat} {new : Object}
      (found : (h.modify (·.setField field (.object n)) k).get? j = some new) :
      ∃ old, h.get? j = some old ∧ new.native = old.native ∧ new.className = old.className := by
    obtain ⟨old, there, ⟨_, rfl⟩ | ⟨_, rfl⟩⟩ := get?_modify_eq_some found
    · exact ⟨old, there, rfl, rfl⟩
    · exact ⟨_, there, rfl, rfl⟩
  have stays {j : Nat} {old : Object} (found : h.get? j = some old) :
      ∃ new, (h.modify (·.setField field (.object n)) k).get? j = some new ∧
        new.native = old.native ∧ new.className = old.className := by
    obtain ⟨new, found'⟩ := exists_get?_modify.2 ⟨old, found⟩
    obtain ⟨old', there', same⟩ := natives found'
    rw [found] at there'
    cases there'
    exact ⟨new, found', same⟩
  refine ⟨?_, ?_, ?_, ?_, ?_, ?_⟩
  · intro j new name found' other
    refine isFree_store there ?_
    obtain ⟨old, there', ⟨rfl, rfl⟩ | ⟨_, rfl⟩⟩ := get?_modify_eq_some found'
    · rw [field_setField, if_neg other]
      exact ordered.contents j old name there' other
    · exact ordered.contents j new name there' other
  · intro o j tracks
    obtain ⟨_, rfl⟩ | ⟨_, tracks'⟩ := (tracks_store there).1 tracks
    · obtain ⟨new, found', native, className⟩ := stays found
      exact ⟨new, [], false, found', className.trans named, native.trans empty⟩
    · obtain ⟨old, entries, released, found', named', holds⟩ := ordered.tracked o j tracks'
      obtain ⟨new, found'', native, className⟩ := stays found'
      exact ⟨new, entries, released, found'', className.trans named', native.trans holds⟩
  · intro o o' j tracks tracks'
    obtain ⟨rfl, rfl⟩ | ⟨_, old⟩ := (tracks_store there).1 tracks
    · obtain ⟨rfl, _⟩ | ⟨_, old⟩ := (tracks_store there).1 tracks'
      · rfl
      · exact absurd old (untracked o')
    · obtain ⟨_, rfl⟩ | ⟨_, old'⟩ := (tracks_store there).1 tracks'
      · exact absurd old (untracked o)
      · exact ordered.alone o o' j old old'
  · intro j entries released holds v listed
    exact isFree_store there
      (ordered.entries j entries released (holds_setField.1 holds) v listed)
  · intro j new b found' holds
    obtain ⟨old, there', native, className⟩ := natives found'
    rw [className]
    exact ordered.handles j old b there' (native ▸ holds)
  · intro j impossible
    cases impossible

end Store

end ReleaseWeaver.Machine.Heap
