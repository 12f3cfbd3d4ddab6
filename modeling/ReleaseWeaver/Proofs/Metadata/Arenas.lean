import Mathlib.Data.List.Nodup

/-
  Arenas: the members of all types of one kind, where what came in k-th has the k-th key for good.
  A member names its declaring type, and for each type the keys of its members are listed, so an
  arena says twice to whom a member belongs. New members and changes in place keep the two in
  agreement, and do to the members, taken type by type, what they do to lists.
-/

namespace ReleaseWeaver

/-- The members of one kind: under its key, each with its declaring type, and for each type the keys
of its members. -/
structure Arena (α : Type) where
  entries : List (Nat × α) := []
  lists : List (List Nat) := []

namespace Arena

variable {α : Type} {a : Arena α} {key type : Nat} {keys : List Nat} {d : α}

def declaring? (a : Arena α) (key : Nat) : Option Nat := a.entries[key]?.map Prod.fst

def get? (a : Arena α) (key : Nat) : Option α := a.entries[key]?.map Prod.snd

def keysOf (a : Arena α) (type : Nat) : List Nat := a.lists[type]?.getD []

/-- The members of a type, in order. -/
def of (a : Arena α) (type : Nat) : List α := (a.keysOf type).filterMap a.get?

/-- A new type has no members. -/
def extend (a : Arena α) : Arena α := { a with lists := a.lists ++ [[]] }

/-- A new member gets the next key and goes to the end of the list of its type. -/
def attach (a : Arena α) (type : Nat) (d : α) : Arena α where
  entries := a.entries ++ [(type, d)]
  lists := a.lists.modify type (· ++ [a.entries.length])

/-- … but not under the name of another member of the type. -/
def attachNamed? (name : α → String) (a : Arena α) (type : Nat) (d : α) : Option (Arena α) :=
  if (a.of type).any (name · == name d) then none else some (a.attach type d)

/-- Change a member in place. -/
def modify (a : Arena α) (key : Nat) (f : α → α) : Arena α :=
  { a with entries := a.entries.modify key (Prod.map id f) }

/-- Each key is in the list of its declaring type, once, and in no other list. -/
def Consistent (a : Arena α) : Prop :=
  ∀ key type, (a.keysOf type).count key = if a.declaring? key = some type then 1 else 0

/-- There is a list for each of so many types, and each key has its declaring type among them. -/
structure Owned (a : Arena α) (types : Nat) : Prop where
  lists : a.lists.length = types
  consistent : a.Consistent
  declaring : ∀ key < a.entries.length, ∃ type < types, a.declaring? key = some type

/-- The members, type by type. -/
def all (a : Arena α) : List (List α) := a.lists.map fun keys => keys.filterMap a.get?

theorem length_all (a : Arena α) : a.all.length = a.lists.length := List.length_map _

theorem of_eq (a : Arena α) (type : Nat) : a.of type = a.all[type]?.getD [] := by
  rw [of, keysOf, all, List.getElem?_map]
  cases a.lists[type]? <;> rfl

theorem keysOf_of_getElem? (here : a.lists[type]? = some keys) : a.keysOf type = keys := by
  rw [keysOf, here]
  rfl

theorem keysOf_modify (a : Arena α) (key : Nat) (f : α → α) (type : Nat) :
    (a.modify key f).keysOf type = a.keysOf type := rfl

theorem declaring?_modify (a : Arena α) (key : Nat) (f : α → α) (key' : Nat) :
    (a.modify key f).declaring? key' = a.declaring? key' := by
  unfold declaring? modify
  rw [List.getElem?_modify]
  cases a.entries[key']? with
  | none => rfl
  | some entry => by_cases same : key = key' <;> simp [same]

theorem get?_modify (a : Arena α) (key : Nat) (f : α → α) (key' : Nat) :
    (a.modify key f).get? key' = if key' = key then (a.get? key').map f else a.get? key' := by
  unfold get? modify
  rw [List.getElem?_modify]
  cases a.entries[key']? with
  | none => simp
  | some entry =>
    by_cases same : key' = key
    · simp [same]
    · simp [same, Ne.symm same]

theorem keysOf_extend (a : Arena α) (type : Nat) : a.extend.keysOf type = a.keysOf type := by
  unfold keysOf extend
  rw [List.getElem?_append]
  split
  · rfl
  · next beyond =>
    rw [List.getElem?_eq_none (Nat.not_lt.1 beyond)]
    cases type - a.lists.length <;> rfl

theorem all_extend (a : Arena α) : a.extend.all = a.all ++ [[]] := by
  rw [all, extend, List.map_append]
  rfl

theorem keysOf_attach (inside : type < a.lists.length) (d : α) (type' : Nat) :
    (a.attach type d).keysOf type' =
      if type' = type then a.keysOf type' ++ [a.entries.length] else a.keysOf type' := by
  unfold keysOf attach
  rw [List.getElem?_modify]
  by_cases same : type' = type
  · subst same
    rw [List.getElem?_eq_getElem inside]
    simp
  · simp [same, Ne.symm same]

theorem getElem?_attach (a : Arena α) (type : Nat) (d : α) (key : Nat) :
    (a.attach type d).entries[key]? =
      if key = a.entries.length then some (type, d) else a.entries[key]? := by
  unfold attach
  by_cases last : key = a.entries.length
  · rw [if_pos last, last, List.getElem?_concat_length]
  · rw [if_neg last, List.getElem?_append]
    split
    · rfl
    · next beyond =>
      rw [List.getElem?_eq_none (Nat.not_lt.1 beyond), List.getElem?_eq_none (by simp; omega)]

theorem declaring?_attach (a : Arena α) (type : Nat) (d : α) (key : Nat) :
    (a.attach type d).declaring? key =
      if key = a.entries.length then some type else a.declaring? key := by
  rw [declaring?, getElem?_attach]
  split <;> rfl

theorem get?_attach (a : Arena α) (type : Nat) (d : α) (key : Nat) :
    (a.attach type d).get? key = if key = a.entries.length then some d else a.get? key := by
  rw [get?, getElem?_attach]
  split <;> rfl

theorem filterMap_modify {i : Nat} (once : keys.Nodup) (there : keys[i]? = some key)
    (known : ∀ key ∈ keys, ∃ d, a.get? key = some d) (f : α → α) :
    keys.filterMap (a.modify key f).get? = (keys.filterMap a.get?).modify i f := by
  induction keys generalizing i with
  | nil => cases there
  | cons first rest ih =>
    obtain ⟨new, once⟩ := List.nodup_cons.1 once
    obtain ⟨⟨d, found⟩, known⟩ := List.forall_mem_cons.1 known
    cases i with
    | zero =>
      cases there
      have others : rest.filterMap (a.modify key f).get? = rest.filterMap a.get? := by
        refine List.filterMap_congr fun key' listed => ?_
        rw [get?_modify, if_neg fun (eq : key' = key) => new (eq ▸ listed)]
      rw [List.filterMap_cons_some (by rw [get?_modify, if_pos rfl, found]; rfl), others,
        List.filterMap_cons_some found]
      rfl
    | succ i =>
      have other : first ≠ key := fun eq => new (eq ▸ List.mem_of_getElem? there)
      rw [List.filterMap_cons_some (by rw [get?_modify, if_neg other, found]), ih once there known,
        List.filterMap_cons_some found]
      rfl

namespace Consistent

variable (consistent : a.Consistent)

include consistent

theorem declaring?_eq_some (here : a.lists[type]? = some keys) (listed : key ∈ keys) :
    a.declaring? key = some type := by
  have count := consistent key type
  rw [keysOf_of_getElem? here] at count
  have positive := List.count_pos_iff.2 listed
  by_contra other
  rw [if_neg other] at count
  omega

theorem exists_get? (here : a.lists[type]? = some keys) (listed : key ∈ keys) :
    ∃ d, a.get? key = some d := by
  obtain ⟨entry, there, _⟩ :=
    Option.map_eq_some_iff.1 (consistent.declaring?_eq_some here listed)
  exact ⟨entry.2, by rw [get?, there]; rfl⟩

theorem lt_of_mem (here : a.lists[type]? = some keys) (listed : key ∈ keys) :
    key < a.entries.length := by
  obtain ⟨entry, there, _⟩ :=
    Option.map_eq_some_iff.1 (consistent.declaring?_eq_some here listed)
  exact (List.getElem?_eq_some_iff.1 there).1

theorem owned : a.Owned a.lists.length := by
  refine ⟨rfl, consistent, fun key inside => ?_⟩
  have owner : a.declaring? key = some a.entries[key].1 := by
    rw [declaring?, List.getElem?_eq_getElem inside]
    rfl
  refine ⟨a.entries[key].1, Nat.not_le.1 fun beyond => ?_, owner⟩
  have count := consistent key a.entries[key].1
  rw [if_pos owner, keysOf, List.getElem?_eq_none beyond] at count
  cases count

theorem nodup (here : a.lists[type]? = some keys) : keys.Nodup := by
  refine List.nodup_iff_count_le_one.2 fun key => ?_
  have count := consistent key type
  rw [keysOf_of_getElem? here] at count
  rw [count]
  split <;> omega

theorem extend : a.extend.Consistent := by
  intro key type
  rw [keysOf_extend]
  exact consistent key type

theorem modify (key : Nat) (f : α → α) : (a.modify key f).Consistent := by
  intro key' type
  rw [keysOf_modify, declaring?_modify]
  exact consistent key' type

theorem attach (inside : type < a.lists.length) (d : α) : (a.attach type d).Consistent := by
  intro key type'
  have count := consistent key type'
  rw [keysOf_attach inside, declaring?_attach]
  by_cases last : key = a.entries.length
  · -- The new key has not been in any list.
    have unknown : a.declaring? key = none := by
      rw [declaring?, List.getElem?_eq_none (Nat.le_of_eq last.symm)]
      rfl
    rw [unknown, if_neg (by simp)] at count
    rw [if_pos last]
    by_cases same : type' = type
    · rw [if_pos same, List.count_append, count, last, same]
      simp
    · rw [if_neg same, count, if_neg fun eq => same (Option.some.inj eq).symm]
  · have other : [a.entries.length].count key = 0 := by
      rw [List.count_singleton]
      simp [Ne.symm last]
    rw [if_neg last, ← count]
    split
    · rw [List.count_append, other, Nat.add_zero]
    · rfl

/-- The old members stay, and the new one is the last of its type. -/
theorem all_attach (type : Nat) (d : α) :
    (a.attach type d).all = a.all.modify type (· ++ [d]) := by
  have old (type' : Nat) (keys : List Nat) (here : a.lists[type']? = some keys) :
      keys.filterMap (a.attach type d).get? = keys.filterMap a.get? := by
    refine List.filterMap_congr fun key listed => ?_
    rw [get?_attach, if_neg (Nat.ne_of_lt (consistent.lt_of_mem here listed))]
  refine List.ext_getElem? fun type' => ?_
  rw [all, all, List.getElem?_map, List.getElem?_modify, List.getElem?_map]
  show ((a.lists.modify type _)[type']?).map _ = _
  rw [List.getElem?_modify]
  cases here : a.lists[type']? with
  | none => rfl
  | some keys =>
    have new : (a.attach type d).get? a.entries.length = some d := by
      rw [get?_attach, if_pos rfl]
    by_cases same : type = type'
    · simp only [same, if_true, Option.map_eq_map, Option.map_some, List.filterMap_append]
      rw [← same, old type' keys here, List.filterMap_cons, new]
      rfl
    · simp only [same, if_false, Option.map_eq_map, Option.map_some, old type' keys here]

/-- A change in place is a change at one place of one type. -/
theorem all_modify {i : Nat} (here : a.lists[type]? = some keys) (there : keys[i]? = some key)
    (f : α → α) : (a.modify key f).all = a.all.modify type (·.modify i f) := by
  have owner := consistent.declaring?_eq_some here (List.mem_of_getElem? there)
  refine List.ext_getElem? fun type' => ?_
  rw [all, all, List.getElem?_map, List.getElem?_modify, List.getElem?_map]
  show (a.lists[type']?).map _ = _
  cases here' : a.lists[type']? with
  | none => rfl
  | some keys' =>
    by_cases same : type = type'
    · subst same
      rw [here] at here'
      cases here'
      simp only [if_true, Option.map_eq_map, Option.map_some]
      rw [filterMap_modify (consistent.nodup here) there
        (fun _ => consistent.exists_get? here)]
    · have unlisted : key ∉ keys' := fun listed => by
        rw [consistent.declaring?_eq_some here' listed] at owner
        exact same (Option.some.inj owner).symm
      simp only [same, if_false, Option.map_eq_map, Option.map_some, Option.some.injEq]
      refine List.filterMap_congr fun key' listed => ?_
      rw [get?_modify, if_neg fun (eq : key' = key) => unlisted (eq ▸ listed)]

end Consistent

end Arena

end ReleaseWeaver
