import Mathlib.Data.List.Chain
import Mathlib.Data.List.Nodup
import ReleaseWeaver.Code.StackCheck

/-
  The lines of a body. Handles are numbered 1, 2, … and none occurs twice, so a handle has one
  position and one instruction, and the handles of a run that is put in are new to the body.
  An insertion at the position of a line splits the body there; redirecting branches changes
  targets and nothing else.
-/

namespace ReleaseWeaver

theorem Handle.nodup_series (start count : Nat) : (Handle.series start count).Nodup := by
  have distinct : (List.range' (start + 1) count).Nodup := List.nodup_range'
  exact distinct.map fun _ _ h => Handle.nth.inj h

theorem Handle.mem_series {start count : Nat} {h : Handle} :
    h ∈ Handle.series start count ↔ ∃ k, start < k ∧ k ≤ start + count ∧ h = .nth k := by
  simp only [Handle.series, List.mem_map, List.mem_range'_1]
  constructor
  · rintro ⟨k, bounds, rfl⟩
    exact ⟨k, by omega, by omega, rfl⟩
  · rintro ⟨k, low, high, rfl⟩
    exact ⟨k, by omega, rfl⟩

namespace Instr

@[simp] theorem fallsThrough_withTarget (i : Instr) (t : Handle) :
    (i.withTarget t).fallsThrough = i.fallsThrough := by
  cases i with
  | branch on _ => cases on <;> rfl
  | _ => rfl

@[simp] theorem pops_withTarget (i : Instr) (t : Handle) (r : Bool) :
    (i.withTarget t).pops r = i.pops r := by
  cases i with
  | branch on _ => cases on <;> rfl
  | _ => rfl

@[simp] theorem pushes_withTarget (i : Instr) (t : Handle) :
    (i.withTarget t).pushes = i.pushes := by
  cases i <;> rfl

@[simp] theorem isRet_withTarget (i : Instr) (t : Handle) : (i.withTarget t).isRet = i.isRet := by
  cases i <;> rfl

theorem isRet_iff {i : Instr} : i.isRet = true ↔ i = .ret := by
  cases i <;> simp [isRet]

theorem target?_withTarget (i : Instr) (t : Handle) :
    (i.withTarget t).target? = i.target?.map fun _ => t := by
  cases i <;> rfl

end Instr

namespace Body

theorem nodup_handles (b : Body) : b.handles.Nodup :=
  b.handles_perm.nodup_iff.2 (Handle.nodup_series 0 _)

theorem mem_handles {b : Body} {h : Handle} :
    h ∈ b.handles ↔ ∃ k, 0 < k ∧ k ≤ b.length ∧ h = .nth k := by
  rw [handles, b.handles_perm.mem_iff, Handle.mem_series]
  simp only [Nat.zero_add, length]

theorem fst_mem_handles {b : Body} {l : Handle × Instr} (h : l ∈ b.lines) : l.1 ∈ b.handles :=
  List.mem_map_of_mem h

/-- A handle names one line. -/
theorem line_unique {b : Body} {l l' : Handle × Instr} (h : l ∈ b.lines) (h' : l' ∈ b.lines)
    (same : l.1 = l'.1) : l = l' :=
  List.inj_on_of_nodup_map b.nodup_handles h h' same

theorem get?_eq_some {b : Body} {h : Handle} {i : Instr} :
    b.get? h = some i ↔ (h, i) ∈ b.lines := by
  rw [get?, Option.map_eq_some_iff]
  constructor
  · rintro ⟨l, found, rfl⟩
    have same : l.1 = h := by simpa using List.find?_some found
    exact same ▸ List.mem_of_find?_eq_some found
  · intro listed
    cases found : b.lines.find? fun l => l.1 = h with
    | none => exact absurd (List.find?_eq_none.1 found _ listed) (by simp)
    | some l =>
      have same : l.1 = h := by simpa using List.find?_some found
      exact ⟨l, rfl, congrArg Prod.snd (line_unique (List.mem_of_find?_eq_some found) listed same)⟩

theorem position?_eq_some {b : Body} {h : Handle} {p : Nat} :
    b.position? h = some p ↔ ∃ i, b.lines[p]? = some (h, i) := by
  rw [position?, List.idxOf?, List.findIdx?_eq_some_iff_getElem]
  constructor
  · rintro ⟨inside, here, _⟩
    have inside' : p < b.lines.length := by simpa [handles] using inside
    refine ⟨b.lines[p].2, ?_⟩
    rw [List.getElem?_eq_getElem inside']
    have : b.lines[p].1 = h := by simpa [handles] using here
    rw [← this]
  · rintro ⟨i, line⟩
    obtain ⟨inside, eq⟩ := List.getElem?_eq_some_iff.1 line
    have inside' : p < b.handles.length := by simpa [handles] using inside
    have here : b.handles[p] = h := by simp [handles, eq]
    refine ⟨inside', by simp [here], fun q before => ?_⟩
    have other : b.handles[q] ≠ b.handles[p] :=
      (List.Nodup.getElem_inj_iff b.nodup_handles).not.2 (Nat.ne_of_lt before)
    simpa [here] using other

theorem position?_isSome {b : Body} {h : Handle} : (∃ p, b.position? h = some p) ↔ h ∈ b.handles := by
  constructor
  · rintro ⟨p, found⟩
    obtain ⟨i, line⟩ := position?_eq_some.1 found
    exact fst_mem_handles (List.mem_of_getElem? line)
  · intro listed
    obtain ⟨l, line, rfl⟩ := List.mem_map.1 listed
    obtain ⟨p, inside, eq⟩ := List.mem_iff_getElem.1 line
    exact ⟨p, position?_eq_some.2 ⟨l.2, by rw [List.getElem?_eq_getElem inside, eq]⟩⟩

/-- A line with its position splits the body. -/
theorem split_at {b : Body} {h : Handle} {p : Nat} (found : b.position? h = some p) :
    ∃ i, b.lines = b.lines.take p ++ (h, i) :: b.lines.drop (p + 1) ∧
      b.lines.drop p = (h, i) :: b.lines.drop (p + 1) ∧
      b.lines.take (p + 1) = b.lines.take p ++ [(h, i)] := by
  obtain ⟨i, line⟩ := position?_eq_some.1 found
  obtain ⟨inside, eq⟩ := List.getElem?_eq_some_iff.1 line
  have rest : b.lines.drop p = (h, i) :: b.lines.drop (p + 1) := by
    rw [List.drop_eq_getElem_cons inside, eq]
  refine ⟨i, ?_, rest, ?_⟩
  · conv_lhs => rw [← List.take_append_drop p b.lines, rest]
  · rw [List.take_add_one, line, Option.toList_some]

theorem lines_insertAt (b : Body) (p : Nat) (run : List Instr) :
    (b.insertAt p run).lines = b.lines.take p ++ (b.fresh run ++ b.lines.drop p) := rfl

theorem mem_lines_insertAt {b : Body} {p : Nat} {run : List Instr} {l : Handle × Instr} :
    l ∈ (b.insertAt p run).lines ↔ l ∈ b.lines ∨ l ∈ b.fresh run := by
  rw [lines_insertAt, List.mem_append, List.mem_append]
  conv_rhs => rw [← List.take_append_drop p b.lines, List.mem_append]
  tauto

theorem mem_handles_insertAt {b : Body} {p : Nat} {run : List Instr} {h : Handle} :
    h ∈ (b.insertAt p run).handles ↔ h ∈ b.handles ∨ h ∈ b.nextHandles run.length := by
  rw [nextHandles, ← map_fst_fresh]
  simp only [handles, List.mem_map, mem_lines_insertAt]
  constructor
  · rintro ⟨l, line | line, rfl⟩
    · exact .inl ⟨l, line, rfl⟩
    · exact .inr ⟨l, line, rfl⟩
  · rintro (⟨l, line, rfl⟩ | ⟨l, line, rfl⟩)
    · exact ⟨l, .inl line, rfl⟩
    · exact ⟨l, .inr line, rfl⟩

@[simp] theorem length_insertAt (b : Body) (p : Nat) (run : List Instr) :
    (b.insertAt p run).length = b.length + run.length := by
  have count := congrArg List.length (List.take_append_drop p b.lines)
  simp only [List.length_append] at count
  simp only [length, lines_insertAt, List.length_append, length_fresh]
  omega

theorem snd_mem_of_mem_fresh {b : Body} {run : List Instr} {l : Handle × Instr}
    (h : l ∈ b.fresh run) : l.2 ∈ run :=
  (List.of_mem_zip h).2

/-- A line after branches to `source` lead to `goal`. -/
def retargetLine (source goal : Handle) (l : Handle × Instr) : Handle × Instr :=
  (l.1, if isRetargeted source goal l then l.2.withTarget goal else l.2)

theorem lines_retarget (b : Body) (source goal : Handle) :
    (b.retarget source goal).lines = b.lines.map (retargetLine source goal) := rfl

theorem mem_lines_retarget {b : Body} {source goal : Handle} {l : Handle × Instr} :
    l ∈ (b.retarget source goal).lines ↔ ∃ l' ∈ b.lines, l = retargetLine source goal l' := by
  rw [lines_retarget, List.mem_map]
  simp only [eq_comm]

@[simp] theorem handles_retarget (b : Body) (source goal : Handle) :
    (b.retarget source goal).handles = b.handles := by
  simp only [handles, lines_retarget, List.map_map]
  rfl

section RetargetLine

variable {source goal : Handle} (l : Handle × Instr)

@[simp] theorem fallsThrough_retargetLine :
    (retargetLine source goal l).2.fallsThrough = l.2.fallsThrough := by
  unfold retargetLine
  split <;> simp

@[simp] theorem pops_retargetLine (r : Bool) :
    (retargetLine source goal l).2.pops r = l.2.pops r := by
  unfold retargetLine
  split <;> simp

@[simp] theorem pushes_retargetLine :
    (retargetLine source goal l).2.pushes = l.2.pushes := by
  unfold retargetLine
  split <;> simp

@[simp] theorem isRet_retargetLine : (retargetLine source goal l).2.isRet = l.2.isRet := by
  unfold retargetLine
  split <;> simp

/-- Every target is the old one, or the new one in its place. -/
theorem target?_retargetLine {t : Handle} (h : (retargetLine source goal l).2.target? = some t) :
    l.2.target? = some t ∨ l.2.target? = some source ∧ t = goal := by
  unfold retargetLine at h
  split at h
  · next redirected =>
    have old : l.2.target? = some source := by
      simp only [isRetargeted, Bool.and_eq_true, beq_iff_eq] at redirected
      exact redirected.2
    rw [Instr.target?_withTarget, old] at h
    exact .inr ⟨old, (Option.some.inj h).symm⟩
  · exact .inl h

end RetargetLine

/-- Where the anchor is in the body, the run goes in and the branches to the anchor lead to its
first instruction. -/
theorem insertBeforeRetargeting_eq {b : Body} {anchor : Handle} {p : Nat}
    (found : b.position? anchor = some p) (i : Instr) (run : List Instr) :
    b.insertBeforeRetargeting anchor (i :: run) =
      .ok ((b.insertAt p (i :: run)).retarget anchor (.nth (b.length + 1))) := by
  simp only [insertBeforeRetargeting, insertBefore, found, nextHandles, Handle.series]
  rfl

theorem finalExit?_eq (b : Body) :
    b.finalExit? = (b.lines.getLast?.filter fun l => l.2.isRet).map Prod.fst := by
  rw [finalExit?, last?, handles, List.getLast?_map]
  cases last : b.lines.getLast? with
  | none => rfl
  | some l =>
    have known : b.get? l.1 = some l.2 := get?_eq_some.2 (List.mem_of_getLast? last)
    rw [Option.map_some, Option.filter_some, Option.filter_some, known, Option.any_some]
    split <;> rfl

theorem finalExit?_eq_some {b : Body} {h : Handle} :
    b.finalExit? = some h ↔ b.lines.getLast? = some (h, .ret) := by
  simp [finalExit?_eq, Instr.isRet_iff]

theorem mem_handles_of_finalExit? {b : Body} {h : Handle} (exit : b.finalExit? = some h) :
    h ∈ b.handles :=
  fst_mem_handles (List.mem_of_getLast? (finalExit?_eq_some.1 exit))

end Body

end ReleaseWeaver
