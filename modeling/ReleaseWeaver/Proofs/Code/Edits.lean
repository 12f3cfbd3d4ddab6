import ReleaseWeaver.Proofs.Code.Splice

/-
  Edits of a body. Whatever is put in, wherever, and whichever targets and instructions are changed,
  a handle keeps its instruction unless the edit is about it, and the order of the lines stays.
  An edit that fails leaves the body alone. Main statements: `Body.edited` for one edit, and
  `Body.evolved` for any number of them.
-/

namespace ReleaseWeaver

namespace Body

variable {b : Body} {h : Handle} {i : Instr} {p : Nat} {run : List Instr}

/-! ## Instructions by their handles -/

theorem exists_get? : (∃ i, b.get? h = some i) ↔ h ∈ b.handles := by
  constructor
  · rintro ⟨i, known⟩
    exact fst_mem_handles (get?_eq_some.1 known)
  · intro listed
    obtain ⟨l, line, rfl⟩ := List.mem_map.1 listed
    exact ⟨l.2, get?_eq_some.2 line⟩

theorem get?_eq_none : b.get? h = none ↔ h ∉ b.handles := by
  rw [← exists_get?, Option.eq_none_iff_forall_ne_some]
  exact not_exists.symm

theorem contains_iff : b.contains h = true ↔ h ∈ b.handles := List.contains_iff_mem

@[simp] theorem handles_mapInstrs (f : Handle → Instr → Instr) :
    (b.mapInstrs f).handles = b.handles := by
  rw [handles, mapInstrs, List.map_map]
  rfl

theorem get?_mapInstrs (f : Handle → Instr → Instr) :
    (b.mapInstrs f).get? h = (b.get? h).map (f h) := by
  cases known : b.get? h with
  | none =>
    rw [Option.map_none, get?_eq_none, handles_mapInstrs]
    exact get?_eq_none.1 known
  | some i => exact get?_eq_some.2 (List.mem_map.2 ⟨(h, i), get?_eq_some.1 known, rfl⟩)

theorem handles_insertAt : (b.insertAt p run).handles =
    b.handles.take p ++ (b.nextHandles run.length ++ b.handles.drop p) := by
  rw [handles, lines_insertAt, List.map_append, List.map_append, map_fst_fresh, List.map_take,
    List.map_drop]
  rfl

theorem get?_insertAt_old (listed : h ∈ b.handles) : (b.insertAt p run).get? h = b.get? h := by
  obtain ⟨i, known⟩ := exists_get?.2 listed
  rw [known, get?_eq_some, mem_lines_insertAt]
  exact .inl (get?_eq_some.1 known)

theorem get?_insertAt_new {j : Nat} (here : run[j]? = some i) :
    (b.insertAt p run).get? (.nth (b.length + 1 + j)) = some i := by
  rw [get?_eq_some, mem_lines_insertAt]
  exact .inr (mem_fresh.2 ⟨j, i, here, rfl⟩)

theorem getElem?_nextHandles {n j : Nat} (inside : j < n) :
    (b.nextHandles n)[j]? = some (.nth (b.length + 1 + j)) := by
  simp [nextHandles, Handle.series, inside]

theorem not_mem_nextHandles {n : Nat} (listed : h ∈ b.nextHandles n) : h ∉ b.handles := by
  obtain ⟨j, there⟩ := List.mem_iff_getElem?.1 listed
  have inside : j < n := by
    have bound := (List.getElem?_eq_some_iff.1 there).1
    rwa [nextHandles, Handle.length_series] at bound
  rw [getElem?_nextHandles inside] at there
  cases there
  exact nth_not_mem_handles j

/-- Where the lines of a run are, its handles name its instructions. -/
theorem map_get?_nextHandles {b' : Body} (there : ∀ l ∈ b.fresh run, l ∈ b'.lines) :
    (b.nextHandles run.length).map b'.get? = run.map some := by
  have names : (b.fresh run).map (b'.get? ∘ Prod.fst) = (b.fresh run).map (some ∘ Prod.snd) :=
    List.map_congr_left fun l listed => get?_eq_some.2 (there l listed)
  have count : run.length ≤ (Handle.series b.length run.length).length := by simp
  rw [← List.map_map, ← List.map_map, map_fst_fresh, fresh, List.map_snd_zip count] at names
  exact names

/-! ## Places -/

theorem at?_eq_some_iff : b.at? p = some h ↔ ∃ i, b.lines[p]? = some (h, i) := by
  rw [at?, handles, List.getElem?_map, Option.map_eq_some_iff]
  constructor
  · rintro ⟨l, line, rfl⟩
    exact ⟨l.2, line⟩
  · rintro ⟨i, line⟩
    exact ⟨(h, i), line, rfl⟩

theorem position?_eq_some_iff_at? : b.position? h = some p ↔ b.at? p = some h := by
  rw [position?_eq_some, at?_eq_some_iff]

/-- The position of a handle splits the order there. -/
theorem handles_split (found : b.position? h = some p) :
    b.handles = b.handles.take p ++ h :: b.handles.drop (p + 1) ∧
      b.handles.drop p = h :: b.handles.drop (p + 1) ∧
      b.handles.take (p + 1) = b.handles.take p ++ [h] := by
  obtain ⟨inside, here⟩ := List.getElem?_eq_some_iff.1 (position?_eq_some_iff_at?.1 found)
  have rest : b.handles.drop p = h :: b.handles.drop (p + 1) := by
    rw [List.drop_eq_getElem_cons inside, here]
  refine ⟨?_, rest, ?_⟩
  · conv_lhs => rw [← List.take_append_drop p b.handles, rest]
  · rw [List.take_add_one, List.getElem?_eq_getElem inside, here, Option.toList_some]

end Body

/-! ## One edit -/

/-- A change of a body. -/
inductive Edit where
  | push (i : Instr)
  | insertBefore (anchor : Handle) (run : List Instr)
  | insertAfter (anchor : Handle) (run : List Instr)
  | insertBeforeRetargeting (anchor : Handle) (run : List Instr)
  | setBranchTarget (h target : Handle)
  | retarget (source goal : Handle)
  | overwrite (h : Handle) (i : Instr)

/-- What an edit answers if it does not fail. -/
inductive Answer where
  | inserted (handles : List Handle)
  | pointed
  | retargeted (count : Nat)
  | overwritten (found : Bool)

/-- The handles that an edit hands out. -/
def Answer.handles : Answer → List Handle
  | .inserted handles => handles
  | _ => []

abbrev Reply : Type := Except UnknownInstruction Answer

def Reply.handles : Reply → List Handle
  | .ok answer => answer.handles
  | .error _ => []

namespace Edit

/-- The instructions that an edit puts in. -/
def code : Edit → List Instr
  | .push i => [i]
  | .insertBefore _ run | .insertAfter _ run | .insertBeforeRetargeting _ run => run
  | _ => []

/-- The edit is about instructions that the body has. -/
def Fits (b : Body) : Edit → Prop
  | .insertBefore anchor _ | .insertAfter anchor _ | .insertBeforeRetargeting anchor _ =>
    anchor ∈ b.handles
  | .setBranchTarget h target =>
    target ∈ b.handles ∧ ∃ i t, b.get? h = some i ∧ i.target? = some t
  | .push _ | .retarget _ _ | .overwrite _ _ => True

/-- Where new handles stand in the order. -/
def Places (before new after : List Handle) : Edit → Prop
  | .push _ => after = before ++ new
  | .insertBefore anchor _ | .insertBeforeRetargeting anchor _ => ∃ front back,
    before = front ++ anchor :: back ∧ after = front ++ (new ++ anchor :: back)
  | .insertAfter anchor _ => ∃ front back,
    before = front ++ anchor :: back ∧ after = front ++ anchor :: (new ++ back)
  | .setBranchTarget _ _ | .retarget _ _ | .overwrite _ _ => new = [] ∧ after = before

/-- The edit may make the second instruction of the first one, which stands under `h`. -/
def Changes (h : Handle) (i i' : Instr) : Edit → Prop
  | .overwrite h' new => h' = h ∧ i' = new
  | .setBranchTarget h' target => h' = h ∧ i' = i.withTarget target
  | .retarget source goal => i.target? = some source ∧ i' = i.withTarget goal
  | .insertBeforeRetargeting anchor _ =>
    i.target? = some anchor ∧ ∃ head, i' = i.withTarget head
  | .push _ | .insertBefore _ _ | .insertAfter _ _ => False

/-- Other than by being overwritten, an instruction changes in its target. -/
theorem Changes.target {e : Edit} {h : Handle} {i i' : Instr} (changes : e.Changes h i i')
    (kept : ∀ new, e ≠ .overwrite h new) : ∃ t, i' = i.withTarget t := by
  cases e with
  | overwrite h' new =>
    obtain ⟨rfl, rfl⟩ := changes
    exact absurd rfl (kept i')
  | setBranchTarget h' target => exact ⟨target, changes.2⟩
  | retarget source goal => exact ⟨goal, changes.2⟩
  | insertBeforeRetargeting anchor run => exact changes.2
  | push i | insertBefore anchor run | insertAfter anchor run => exact changes.elim

end Edit

/-- New handles stand together, and those on either side of them stand as before. -/
theorem Edit.Places.cut {e : Edit} {before new after : List Handle}
    (places : e.Places before new after) :
    ∃ front back, before = front ++ back ∧ after = front ++ (new ++ back) := by
  cases e with
  | push i =>
    obtain rfl : after = before ++ new := places
    exact ⟨before, [], by simp, by simp⟩
  | insertBefore anchor run | insertBeforeRetargeting anchor run =>
    obtain ⟨front, back, old, now⟩ := places
    exact ⟨front, anchor :: back, old, now⟩
  | insertAfter anchor run =>
    obtain ⟨front, back, old, now⟩ := places
    exact ⟨front ++ [anchor], back, by simpa using old, by simpa using now⟩
  | setBranchTarget h target | retarget source goal | overwrite h i =>
    obtain ⟨rfl, rfl⟩ := places
    exact ⟨after, [], by simp, by simp⟩

/-- A branch that leads elsewhere, and from there elsewhere again, leads elsewhere. -/
theorem Instr.retargeted_trans {i i₁ i₂ : Instr} (first : i₁ = i ∨ ∃ t, i₁ = i.withTarget t)
    (second : i₂ = i₁ ∨ ∃ t, i₂ = i₁.withTarget t) : i₂ = i ∨ ∃ t, i₂ = i.withTarget t := by
  obtain rfl | ⟨t, rfl⟩ := second
  · exact first
  · obtain rfl | ⟨t', rfl⟩ := first
    · exact .inr ⟨t, rfl⟩
    · exact .inr ⟨t, by cases i <;> rfl⟩

namespace Body

/-- What becomes of a body: the new one with an answer, or the old one with the failure. -/
def settle (b : Body) (answer : Answer) : Except UnknownInstruction Body → Reply × Body
  | .ok b' => (.ok answer, b')
  | .error e => (.error e, b)

/-- Carry out an edit. -/
def edit (b : Body) : Edit → Reply × Body
  | .push i => (.ok (.inserted (b.nextHandles 1)), b.append [i])
  | .insertBefore anchor run =>
    b.settle (.inserted (b.nextHandles run.length)) (b.insertBefore anchor run)
  | .insertAfter anchor run =>
    b.settle (.inserted (b.nextHandles run.length)) (b.insertAfter anchor run)
  | .insertBeforeRetargeting anchor run =>
    b.settle (.inserted (b.nextHandles run.length)) (b.insertBeforeRetargeting anchor run)
  | .setBranchTarget h target => b.settle .pointed (b.setBranchTarget h target)
  | .retarget source goal =>
    (.ok (.retargeted (b.retargetCount source goal)), b.retarget source goal)
  | .overwrite h i => (.ok (.overwritten (b.contains h)), b.replace h i)

/-- What one edit does to a body. -/
structure Edited (b : Body) (e : Edit) (reply : Reply) (b' : Body) : Prop where
  answers : (∃ answer, reply = .ok answer) ↔ e.Fits b
  fails : ∀ error, reply = .error error → b' = b
  places : ∀ answer, reply = .ok answer → e.Places b.handles answer.handles b'.handles
  puts : ∀ handles : List Handle, reply = .ok (.inserted handles) →
    handles.length = e.code.length ∧ ∀ (k : Nat) h i, handles[k]? = some h → e.code[k]? = some i →
      ∃ i', b'.get? h = some i' ∧ (i' = i ∨ e.Changes h i i')
  keeps : ∀ h i, b.get? h = some i → ∃ i', b'.get? h = some i' ∧ (i' = i ∨ e.Changes h i i')

variable {b b' : Body} {e : Edit} {h : Handle} {i : Instr} {p : Nat} {run : List Instr}

theorem edited_of_failure (error : UnknownInstruction) (unfit : ¬e.Fits b) :
    b.Edited e (.error error) b where
  answers := ⟨fun ⟨_, impossible⟩ => (nomatch impossible), fun fits => absurd fits unfit⟩
  fails _ _ := rfl
  places _ impossible := nomatch impossible
  puts _ impossible := nomatch impossible
  keeps _ i known := ⟨i, known, .inl rfl⟩

/-- A run is put in, and perhaps targets change then. -/
theorem edited_of_insertion {f : Handle → Instr → Instr} (code : e.code = run) (fits : e.Fits b)
    (places : e.Places b.handles (b.nextHandles run.length) (b.insertAt p run).handles)
    (handles : b'.handles = (b.insertAt p run).handles)
    (instrs : ∀ h, b'.get? h = ((b.insertAt p run).get? h).map (f h))
    (changes : ∀ h i, f h i = i ∨ e.Changes h i (f h i)) :
    b.Edited e (.ok (.inserted (b.nextHandles run.length))) b' where
  answers := ⟨fun _ => fits, fun _ => ⟨_, rfl⟩⟩
  fails _ impossible := nomatch impossible
  places answer same := by
    cases same
    rw [handles]
    exact places
  puts hs same := by
    cases same
    refine ⟨by rw [code, nextHandles, Handle.length_series], fun k h i named here => ?_⟩
    rw [code] at here
    rw [getElem?_nextHandles (List.getElem?_eq_some_iff.1 here).1] at named
    cases named
    exact ⟨_, by rw [instrs, get?_insertAt_new here]; rfl, changes _ i⟩
  keeps h i known := by
    refine ⟨_, ?_, changes h i⟩
    rw [instrs, get?_insertAt_old (exists_get?.1 ⟨i, known⟩), known]
    rfl

/-- Instructions change in place. -/
theorem edited_of_mapInstrs {f : Handle → Instr → Instr} {answer : Answer} (code : e.code = [])
    (fits : e.Fits b) (places : e.Places b.handles [] b.handles) (none : answer.handles = [])
    (changes : ∀ h i, b.get? h = some i → f h i = i ∨ e.Changes h i (f h i)) :
    b.Edited e (.ok answer) (b.mapInstrs f) where
  answers := ⟨fun _ => fits, fun _ => ⟨_, rfl⟩⟩
  fails _ impossible := nomatch impossible
  places answer same := by
    cases same
    rw [handles_mapInstrs, none]
    exact places
  puts hs same := by
    cases same
    obtain rfl : hs = [] := none
    refine ⟨by rw [code]; rfl, fun k h i named => ?_⟩
    cases named
  keeps h i known := ⟨_, by rw [get?_mapInstrs, known]; rfl, changes h i known⟩

theorem places_before (found : b.position? h = some p) (new : List Handle) :
    ∃ front back, b.handles = front ++ h :: back ∧
      b.handles.take p ++ (new ++ b.handles.drop p) = front ++ (new ++ h :: back) := by
  obtain ⟨split, rest, _⟩ := handles_split found
  exact ⟨_, _, split, by rw [rest]⟩

theorem places_after (found : b.position? h = some p) (new : List Handle) :
    ∃ front back, b.handles = front ++ h :: back ∧
      b.handles.take (p + 1) ++ (new ++ b.handles.drop (p + 1)) =
        front ++ h :: (new ++ back) := by
  obtain ⟨split, _, front⟩ := handles_split found
  exact ⟨_, _, split, by rw [front, List.append_assoc]; rfl⟩

/-- A plain insertion. -/
theorem edited_of_insertAt (code : e.code = run) (fits : e.Fits b)
    (places : e.Places b.handles (b.nextHandles run.length) (b.insertAt p run).handles) :
    b.Edited e (.ok (.inserted (b.nextHandles run.length))) (b.insertAt p run) :=
  edited_of_insertion (f := fun _ => id) code fits places rfl
    (fun h => by rw [show (id : Instr → Instr) = fun i => i from rfl, Option.map_id'])
    fun _ _ => .inl rfl

theorem retarget_changes (source goal : Handle) (h : Handle) (i : Instr) :
    (if isRetargeted source goal (h, i) then i.withTarget goal else i) = i ∨
      i.target? = some source ∧
        (if isRetargeted source goal (h, i) then i.withTarget goal else i) = i.withTarget goal := by
  split
  · next redirected =>
    simp only [isRetargeted, Bool.and_eq_true, beq_iff_eq] at redirected
    exact .inr ⟨redirected.2, rfl⟩
  · exact .inl rfl

section Insertions

variable (b : Body) (anchor : Handle) (run : List Instr)

theorem edit_insertBefore : b.edit (.insertBefore anchor run) = match b.position? anchor with
    | some p => (.ok (.inserted (b.nextHandles run.length)), b.insertAt p run)
    | none => (.error ⟨anchor⟩, b) := by
  simp only [edit, insertBefore]
  cases b.position? anchor <;> rfl

theorem edit_insertAfter : b.edit (.insertAfter anchor run) = match b.position? anchor with
    | some p => (.ok (.inserted (b.nextHandles run.length)), b.insertAt (p + 1) run)
    | none => (.error ⟨anchor⟩, b) := by
  simp only [edit, insertAfter]
  cases b.position? anchor <;> rfl

theorem edit_insertBeforeRetargeting : b.edit (.insertBeforeRetargeting anchor run) =
    match b.position? anchor with
    | some p => (.ok (.inserted (b.nextHandles run.length)),
      match (b.nextHandles run.length).head? with
      | some head => (b.insertAt p run).retarget anchor head
      | none => b.insertAt p run)
    | none => (.error ⟨anchor⟩, b) := by
  simp only [edit, insertBeforeRetargeting, insertBefore]
  cases b.position? anchor <;> rfl

end Insertions

theorem edited_of_unknown {anchor : Handle} (missing : b.position? anchor = none)
    (fits : e.Fits b → anchor ∈ b.handles) : b.Edited e (.error ⟨anchor⟩) b := by
  refine edited_of_failure _ fun listed => ?_
  obtain ⟨p, found⟩ := position?_isSome.2 (fits listed)
  rw [missing] at found
  cases found

theorem edited_insertBeforeRetargeting {anchor : Handle} (found : b.position? anchor = some p) :
    b.Edited (.insertBeforeRetargeting anchor run) (.ok (.inserted (b.nextHandles run.length)))
      (match (b.nextHandles run.length).head? with
      | some head => (b.insertAt p run).retarget anchor head
      | none => b.insertAt p run) := by
  have fits : (Edit.insertBeforeRetargeting anchor run).Fits b := position?_isSome.1 ⟨p, found⟩
  have places : (Edit.insertBeforeRetargeting anchor run).Places b.handles
      (b.nextHandles run.length) (b.insertAt p run).handles := by
    rw [handles_insertAt]
    exact places_before found _
  split
  · next head _ =>
    refine edited_of_insertion (p := p)
      (f := fun h i => if isRetargeted anchor head (h, i) then i.withTarget head else i) rfl fits
      places (handles_retarget _ _ _) (fun h => get?_mapInstrs _) fun h i => ?_
    exact (retarget_changes anchor head h i).imp_right fun ⟨old, new⟩ => ⟨old, head, new⟩
  · exact edited_of_insertAt rfl fits places

theorem edited_setBranchTarget (b : Body) (h target : Handle) :
    b.Edited (.setBranchTarget h target) (b.edit (.setBranchTarget h target)).1
      (b.edit (.setBranchTarget h target)).2 := by
  simp only [edit, setBranchTarget]
  by_cases listed : b.contains target = true
  swap
  · simp only [Bool.not_eq_true] at listed
    simp only [listed, Bool.not_false, if_true]
    refine edited_of_failure _ fun ⟨known, _⟩ => ?_
    rw [contains_iff.2 known] at listed
    cases listed
  simp only [listed, Bool.not_true, Bool.false_eq_true, if_false]
  cases branch : (b.get? h).bind Instr.target? with
  | none =>
    refine edited_of_failure _ fun ⟨_, i, t, known, target⟩ => ?_
    rw [known, Option.bind_some, target] at branch
    cases branch
  | some t =>
    obtain ⟨i, known, old⟩ := Option.bind_eq_some_iff.1 branch
    have none : Answer.pointed.handles = [] := rfl
    refine edited_of_mapInstrs (e := .setBranchTarget h target)
      (f := fun h' i' => if h' = h then i'.withTarget target else i') rfl
      ⟨contains_iff.1 listed, i, t, known, old⟩ ⟨rfl, rfl⟩ none fun h' i' _ => ?_
    split
    · next same => exact .inr ⟨same.symm, rfl⟩
    · exact .inl rfl

/-- An edit puts in what it is given where it is told to, and leaves all else alone. -/
theorem edited (b : Body) (e : Edit) : b.Edited e (b.edit e).1 (b.edit e).2 := by
  cases e with
  | push i =>
    refine edited_of_insertAt (e := .push i) rfl trivial ?_
    have whole : b.handles.length = b.length := List.length_map _
    rw [handles_insertAt, List.take_of_length_le (by omega), List.drop_of_length_le (by omega),
      List.append_nil]
    rfl
  | insertBefore anchor run =>
    rw [edit_insertBefore]
    split
    · next p found =>
      refine edited_of_insertAt (e := .insertBefore anchor run) rfl
        (position?_isSome.1 ⟨p, found⟩) ?_
      rw [handles_insertAt]
      exact places_before found _
    · next missing => exact edited_of_unknown missing id
  | insertAfter anchor run =>
    rw [edit_insertAfter]
    split
    · next p found =>
      refine edited_of_insertAt (e := .insertAfter anchor run) rfl
        (position?_isSome.1 ⟨p, found⟩) ?_
      rw [handles_insertAt]
      exact places_after found _
    · next missing => exact edited_of_unknown missing id
  | insertBeforeRetargeting anchor run =>
    rw [edit_insertBeforeRetargeting]
    split
    · next p found => exact edited_insertBeforeRetargeting found
    · next missing => exact edited_of_unknown missing id
  | setBranchTarget h target => exact edited_setBranchTarget b h target
  | retarget source goal =>
    have none : (Answer.retargeted (b.retargetCount source goal)).handles = [] := rfl
    exact edited_of_mapInstrs (e := .retarget source goal) rfl trivial ⟨rfl, rfl⟩ none
      fun h i _ => retarget_changes source goal h i
  | overwrite h i =>
    have none : (Answer.overwritten (b.contains h)).handles = [] := rfl
    refine edited_of_mapInstrs (e := .overwrite h i) (f := fun h' i' => if h' = h then i else i')
      rfl trivial ⟨rfl, rfl⟩ none fun h' i' _ => ?_
    split
    · next same => exact .inr ⟨same.symm, rfl⟩
    · exact .inl rfl

/-! ## Any number of edits -/

theorem Edited.handles_cut {reply : Reply} (edited : b.Edited e reply b') : ∃ front back,
    b.handles = front ++ back ∧ b'.handles = front ++ (reply.handles ++ back) := by
  cases reply with
  | error error =>
    rw [edited.fails error rfl]
    exact ⟨[], b.handles, rfl, rfl⟩
  | ok answer => exact (edited.places answer rfl).cut

/-- Carry out some edits one after the other. -/
def editAll (b : Body) : List Edit → List Reply × Body
  | [] => ([], b)
  | e :: rest => ((b.edit e).1 :: ((b.edit e).2.editAll rest).1, ((b.edit e).2.editAll rest).2)

/-- What some edits do to a body: it has the handles that it had and those handed out, each once;
the old ones stand in the order in which they stood; and an instruction that is not overwritten
through its handle changes at most in its target. -/
structure Evolved (b : Body) (edits : List Edit) (replies : List Reply) (b' : Body) : Prop where
  listed : b'.handles.Perm (b.handles ++ replies.flatMap Reply.handles)
  once : (b.handles ++ replies.flatMap Reply.handles).Nodup
  order : b.handles.Sublist b'.handles
  keeps : ∀ h i, b.get? h = some i → (∀ i', .overwrite h i' ∉ edits) →
    ∃ i', b'.get? h = some i' ∧ (i' = i ∨ ∃ t, i' = i.withTarget t)

theorem evolved (b : Body) (edits : List Edit) :
    b.Evolved edits (b.editAll edits).1 (b.editAll edits).2 := by
  induction edits generalizing b with
  | nil =>
    exact ⟨by simp [editAll], by simpa [editAll] using b.nodup_handles, List.Sublist.refl _,
      fun _ i known _ => ⟨i, known, .inl rfl⟩⟩
  | cons e rest ih =>
    have first := b.edited e
    obtain ⟨listed, _, order, keeps⟩ := ih (b.edit e).2
    obtain ⟨front, back, before, after⟩ := first.handles_cut
    have step : (b.edit e).2.handles.Perm (b.handles ++ (b.edit e).1.handles) := by
      rw [before, after, List.append_assoc]
      exact List.perm_append_comm.append_left front
    have kept : b.handles.Sublist (b.edit e).2.handles := by
      rw [before, after]
      exact (List.sublist_append_right _ _).append_left front
    have all : (b.editAll (e :: rest)).2.handles.Perm
        (b.handles ++ (b.editAll (e :: rest)).1.flatMap Reply.handles) := by
      rw [editAll, List.flatMap_cons, ← List.append_assoc]
      exact listed.trans (step.append_right _)
    refine ⟨all, all.nodup_iff.1 (nodup_handles _), kept.trans order, fun h i known others => ?_⟩
    obtain ⟨i₁, known₁, change⟩ := first.keeps h i known
    obtain ⟨i₂, known₂, change'⟩ := keeps h i₁ known₁ fun i' listed =>
      others i' (List.mem_cons_of_mem e listed)
    refine ⟨i₂, known₂, ?_⟩
    have changed : i₁ = i ∨ ∃ t, i₁ = i.withTarget t := by
      refine change.imp_right fun changes => changes.target fun new same => ?_
      exact others new (same ▸ List.mem_cons_self)
    exact Instr.retargeted_trans changed change'

end Body

end ReleaseWeaver
