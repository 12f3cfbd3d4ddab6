import ReleaseWeaver.Proofs.Weave.Insertions

/-
  Where the lines of a body stand after a run has been put after some of them. A line moves back by
  the length of the run for every match before it, so a branch to it leads to it and a branch to
  the line after a match skips the run. A branch that leads nowhere still leads nowhere, unless it
  names one of the numbers that the new lines have got.
-/

namespace ReleaseWeaver

namespace Lines

variable {site : Instr → Bool} {run : List Instr} {start k q j : Nat} {l : Handle × Instr}
  {lines : List (Handle × Instr)}

/-- Where the line at a position stands after runs of this length have been put after the matches. -/
def shift (site : Instr → Bool) (length : Nat) (lines : List (Handle × Instr)) (q : Nat) : Nat :=
  q + (lines.take q).countP (fun l => site l.2) * length

theorem shift_zero (site : Instr → Bool) (length : Nat) (lines : List (Handle × Instr)) :
    shift site length lines 0 = 0 := by
  rw [shift, List.take_zero, List.countP_nil, Nat.zero_mul]

theorem shift_cons (site : Instr → Bool) (length : Nat) (l : Handle × Instr)
    (lines : List (Handle × Instr)) (q : Nat) : shift site length (l :: lines) (q + 1) =
      shift site length lines q + 1 + if site l.2 then length else 0 := by
  rw [shift, shift, List.take_succ_cons, List.countP_cons]
  split
  · rw [Nat.succ_mul]
    omega
  · simp only [Nat.add_zero]
    omega

theorem shift_succ (here : lines[q]? = some l) (length : Nat) :
    shift site length lines (q + 1) =
      shift site length lines q + 1 + if site l.2 then length else 0 := by
  rw [shift, shift, List.take_add_one, here, Option.toList_some, List.countP_append,
    List.countP_singleton]
  split
  · rw [Nat.succ_mul]
    omega
  · simp only [Nat.add_zero]
    omega

theorem getElem?_numbered (inside : j < run.length) :
    (numbered start run)[j]? = some (.nth (start + 1 + j), run[j]) := by
  rw [numbered, List.getElem?_zip_eq_some]
  refine ⟨?_, List.getElem?_eq_getElem inside⟩
  rw [Handle.series, List.getElem?_map, List.getElem?_range' (by exact inside), Option.map_some,
    Nat.one_mul]

/-- Every line stands at its new position. -/
theorem getElem?_withAfterEach (site : Instr → Bool) (run : List Instr) (start q : Nat)
    (lines : List (Handle × Instr)) :
    (withAfterEach site run start lines)[shift site run.length lines q]? = lines[q]? := by
  induction lines generalizing start q with
  | nil => rfl
  | cons l rest ih =>
    cases q with
    | zero =>
      rw [shift_zero, withAfterEach]
      split <;> rfl
    | succ q =>
      rw [shift_cons, withAfterEach, List.getElem?_cons_succ]
      split
      · have past : shift site run.length rest q + 1 + run.length =
            (numbered start run).length + shift site run.length rest q + 1 := by
          rw [length_numbered]
          omega
        rw [past, List.getElem?_cons_succ, List.getElem?_append_right (Nat.le_add_right _ _),
          Nat.add_sub_cancel_left, ih]
      · rw [Nat.add_zero, List.getElem?_cons_succ, ih]

/-- The run stands after every match. -/
theorem getElem?_withAfterEach_run (here : lines[q]? = some l) (matched : site l.2 = true)
    (start : Nat) (inside : j < run.length) : ∃ k, start < k ∧
      (withAfterEach site run start lines)[shift site run.length lines q + 1 + j]? =
        some (.nth k, run[j]) := by
  induction lines generalizing start q with
  | nil => cases here
  | cons first rest ih =>
    have length := length_numbered start run
    cases q with
    | zero =>
      cases here
      refine ⟨start + 1 + j, by omega, ?_⟩
      rw [shift_zero, withAfterEach, if_pos matched, Nat.zero_add, Nat.add_comm 1 j,
        List.getElem?_cons_succ, List.getElem?_append_left (by omega), getElem?_numbered inside]
    | succ q =>
      rw [List.getElem?_cons_succ] at here
      rw [shift_cons, withAfterEach]
      split
      · obtain ⟨k, new, there⟩ := ih here (start + run.length)
        have past : shift site run.length rest q + 1 + run.length + 1 + j =
            (numbered start run).length + (shift site run.length rest q + 1 + j) + 1 := by omega
        refine ⟨k, by omega, ?_⟩
        rw [past, List.getElem?_cons_succ, List.getElem?_append_right (Nat.le_add_right _ _),
          Nat.add_sub_cancel_left, there]
      · obtain ⟨k, new, there⟩ := ih here start
        refine ⟨k, new, ?_⟩
        rw [Nat.add_zero, Nat.add_right_comm _ 1 j, List.getElem?_cons_succ, ← there]

end Lines

namespace Body

/-- The second body is the first with a run after every match: its lines stand where they are
mapped to, each match has the run behind it, and nothing else is said of the new lines than that
their handles are new. -/
structure Spreads (b w : Body) (site : Instr → Bool) (run : List Instr) (pos : Nat → Nat) :
    Prop where
  locals : w.locals = b.locals
  first : pos 0 = 0
  line (q : Nat) : w.lines[pos q]? = b.lines[q]?
  next {q l} : b.lines[q]? = some l → site l.2 = false → pos (q + 1) = pos q + 1
  past {q l} : b.lines[q]? = some l → site l.2 = true → pos (q + 1) = pos q + 1 + run.length
  inserted {q l j} : b.lines[q]? = some l → site l.2 = true → (inside : j < run.length) →
    ∃ t, t ∉ b.handles ∧ w.lines[pos q + 1 + j]? = some (t, run[j])

/-- A run is put after every match. -/
theorem spreads_insertAfterEach (b : Body) (site : Instr → Bool) (run : List Instr) :
    b.Spreads (insertAfterEach run ((b.lines.filter fun l => site l.2).map Prod.fst) b).1 site run
      (Lines.shift site run.length b.lines) := by
  have lines : (insertAfterEach run ((b.lines.filter fun l => site l.2).map Prod.fst) b).1.lines =
      Lines.withAfterEach site run b.length b.lines :=
    lines_insertAfterEach site (List.nil_append b.lines).symm
  refine ⟨locals_insertAfterEach run _ b, Lines.shift_zero _ _ _, fun q => ?_,
    fun here silent => ?_, fun here matched => ?_, fun here matched inside => ?_⟩
  · rw [lines, Lines.getElem?_withAfterEach]
  · rw [Lines.shift_succ here, silent, if_neg Bool.false_ne_true, Nat.add_zero]
  · rw [Lines.shift_succ here, if_pos matched]
  · obtain ⟨k, new, there⟩ := Lines.getElem?_withAfterEach_run here matched b.length inside
    refine ⟨.nth k, fun old => ?_, by rw [lines, there]⟩
    obtain ⟨k', _, bound, same⟩ := mem_handles.1 old
    cases same
    omega

namespace Spreads

variable {b w : Body} {site : Instr → Bool} {run : List Instr} {pos : Nat → Nat} {t : Handle}

/-- A branch leads to the same line. -/
theorem position?_eq (spreads : b.Spreads w site run pos) (apart : t ∈ w.handles → t ∈ b.handles) :
    w.position? t = (b.position? t).map pos := by
  cases found : b.position? t with
  | some q =>
    obtain ⟨i, line⟩ := position?_eq_some.1 found
    exact position?_eq_some.2 ⟨i, (spreads.line q).trans line⟩
  | none =>
    cases found' : w.position? t with
    | none => rfl
    | some q =>
      obtain ⟨q', there⟩ := position?_isSome.2 (apart (position?_isSome.1 ⟨q, found'⟩))
      rw [found] at there
      cases there

end Spreads

end Body

end ReleaseWeaver
