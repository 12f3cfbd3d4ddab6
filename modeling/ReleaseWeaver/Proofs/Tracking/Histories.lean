import ReleaseWeaver.Proofs.Tracking.Ledger

/-
  An account for a heap of unknown origin. If the containers in the tracking fields are kept apart,
  the heap is what a prologue of each object and the registration of each entry would have led to.
  So what is known of runs from the start holds of runs from such a heap. Main statement:
  `account_history`.
-/

namespace ReleaseWeaver.Machine

variable {h : Heap} {field : String} {o n : Nat} {entries values : List Value} {released : Bool}

namespace Heap

/-- The prologue and the registrations that the container of an object would come from. -/
def historyOf (field : String) (h : Heap) (o : Nat) : List Event :=
  match h.tracking? field o with
  | some (entries, _) => .prologue o :: entries.map (.produced o)
  | none => []

def history (field : String) (h : Heap) : List Event :=
  (List.range (h.objects.size + 1)).flatMap (h.historyOf field)

theorem foldl_produced (k o : Nat) (entries values : List Value) :
    (entries.map (.produced k)).foldl (Event.record o) values =
      if k = o then values ++ entries else values := by
  induction entries generalizing values with
  | nil => simp
  | cons v entries ih =>
    rw [List.map_cons, List.foldl_cons, ih, Event.record]
    split
    · rw [List.append_assoc, List.singleton_append]
    · rfl

theorem foldl_historyOf (k : Nat) : (h.historyOf field k).foldl (Event.record o) values =
    if k = o then ((h.tracking? field o).map Prod.fst).getD values else values := by
  unfold historyOf
  split
  · next entries released tracked =>
    rw [List.foldl_cons, foldl_produced, Event.record]
    split
    · next same =>
      rw [← same, tracked]
      rfl
    · rfl
  · next untracked =>
    split
    · next same =>
      rw [← same, untracked]
      rfl
    · rfl

theorem producedOn_history (tracked : h.tracking? field o = some (entries, released)) :
    producedOn o (h.history field) = entries := by
  have known : o ∈ List.range (h.objects.size + 1) := by
    obtain ⟨_, ⟨object, there, _⟩, _⟩ := tracking?_eq_some.1 tracked
    have := le_of_get? there
    exact List.mem_range.2 (by omega)
  -- Only the part of the object itself counts, and it is there once.
  have each (os : List Nat) (nodup : os.Nodup) (values : List Value) :
      (os.flatMap (h.historyOf field)).foldl (Event.record o) values =
        if o ∈ os then entries else values := by
    induction os generalizing values with
    | nil => rfl
    | cons k os ih =>
      obtain ⟨fresh, nodup⟩ := List.nodup_cons.1 nodup
      rw [List.flatMap_cons, List.foldl_append, foldl_historyOf, ih nodup]
      by_cases same : k = o
      · subst same
        rw [if_neg fresh, if_pos rfl, if_pos List.mem_cons_self, tracked]
        rfl
      · have other : o ∈ k :: os ↔ o ∈ os := by simp [Ne.symm same]
        simp only [if_neg same, other]
  exact (each _ List.nodup_range []).trans (if_pos known)

theorem mem_history {e : Event} :
    e ∈ h.history field ↔ ∃ k, e ∈ h.historyOf field k := by
  unfold history
  rw [List.mem_flatMap]
  refine ⟨fun ⟨k, _, listed⟩ => ⟨k, listed⟩, fun ⟨k, listed⟩ => ⟨k, ?_, listed⟩⟩
  unfold historyOf at listed
  split at listed
  · next tracked =>
    obtain ⟨_, ⟨object, there, _⟩, _⟩ := tracking?_eq_some.1 tracked
    have := le_of_get? there
    exact List.mem_range.2 (by omega)
  · cases listed

theorem mem_historyOf {e : Event} {k : Nat} (listed : e ∈ h.historyOf field k) :
    ∃ entries released, h.tracking? field k = some (entries, released) ∧
      (e = .prologue k ∨ ∃ v ∈ entries, e = .produced k v) := by
  unfold historyOf at listed
  split at listed
  · next entries released tracked =>
    refine ⟨entries, released, tracked, (List.mem_cons.1 listed).imp_right fun inside => ?_⟩
    obtain ⟨v, member, same⟩ := List.mem_map.1 inside
    exact ⟨v, member, same.symm⟩
  · cases listed

theorem prologue_mem_history :
    .prologue o ∈ h.history field ↔ (h.tracking? field o).isSome = true := by
  rw [mem_history]
  constructor
  · rintro ⟨k, listed⟩
    obtain ⟨entries, released, tracked, same | ⟨_, _, same⟩⟩ := mem_historyOf listed
    · cases same
      rw [tracked]
      rfl
    · cases same
  · intro tracked
    obtain ⟨found, tracked⟩ := Option.isSome_iff_exists.1 tracked
    refine ⟨o, ?_⟩
    unfold historyOf
    rw [tracked]
    exact List.mem_cons_self

theorem count_history (tracked : (h.tracking? field o).isSome = true) :
    (h.history field).count (.prologue o) = 1 := by
  obtain ⟨⟨entries, released⟩, tracked⟩ := Option.isSome_iff_exists.1 tracked
  have single (k : Nat) : (h.historyOf field k).count (.prologue o) = [k].count o := by
    by_cases same : k = o
    · subst same
      have later : (entries.map (Event.produced k)).count (.prologue k) = 0 := by
        refine List.count_eq_zero.2 fun listed => ?_
        obtain ⟨_, _, impossible⟩ := List.mem_map.1 listed
        cases impossible
      unfold historyOf
      rw [tracked]
      simp [later]
    · rw [List.count_eq_zero.2 fun listed => ?_, List.count_eq_zero.2 (by simp [Ne.symm same])]
      obtain ⟨_, _, _, same' | ⟨_, _, impossible⟩⟩ := mem_historyOf listed
      · exact same (Event.prologue.inj same').symm
      · cases impossible
  have each (os : List Nat) :
      (os.flatMap (h.historyOf field)).count (.prologue o) = os.count o := by
    induction os with
    | nil => rfl
    | cons k os ih =>
      rw [List.flatMap_cons, List.count_append, single, ih, ← List.count_append,
        List.singleton_append]
  rw [history, each]
  refine List.count_eq_one_of_mem List.nodup_range (List.mem_range.2 ?_)
  obtain ⟨_, ⟨object, there, _⟩, _⟩ := tracking?_eq_some.1 tracked
  have := le_of_get? there
  omega

end Heap

/-- A heap with containers that are kept apart has an account, in which nothing is under way and
every container whose debts count is still to be released. -/
theorem account_history {w : Watch} (due : Nat → Prop) (ordered : h.Ordered w.field none)
    (unreleased : ∀ n, due n → ∃ entries, h.Holds n entries false) :
    Account w due (h.history w.field) h none calm [] where
  ordered := ordered
  ledger := by
    intro o listed
    obtain ⟨⟨entries, released⟩, tracked⟩ :=
      Option.isSome_iff_exists.1 (Heap.prologue_mem_history.1 listed)
    obtain ⟨n, tracks, holds⟩ := Heap.tracking?_eq_some.1 tracked
    refine ⟨n, entries, released, tracks, holds, ?_⟩
    rw [Heap.producedOn_history tracked]
    exact List.append_nil entries
  started := by
    intro o n tracks
    obtain ⟨container, entries, released, there, _, native⟩ := ordered.tracked o n tracks
    have tracked := Heap.tracking?_eq_some.2 ⟨n, tracks, container, there, native⟩
    exact Heap.prologue_mem_history.2 (by rw [tracked]; rfl)
  finished := by
    intro o listed
    obtain ⟨k, listed⟩ := Heap.mem_history.1 listed
    obtain ⟨_, _, _, impossible | ⟨_, _, impossible⟩⟩ := Heap.mem_historyOf listed
    · cases impossible
    · cases impossible
  debts := by
    intro n entries holds counts
    obtain ⟨entries', holds'⟩ := unreleased n counts
    cases (holds.unique holds').2

end ReleaseWeaver.Machine
