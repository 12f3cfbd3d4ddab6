import ReleaseWeaver.Proofs.Code.Edits

/-
  How a body is stored: an arena, where the k-th instruction ever put in has the k-th slot for good,
  and beside it the order, a list of handles. The edits work on the two parts one by one. Main
  statement: whatever edits are made, with handles of the body or not, the two parts and the list of
  lines stay in step, answer the same, and keep every handle, its place among the others, and its
  instruction.
-/

namespace ReleaseWeaver

structure Storage where
  arena : List Instr
  order : List Handle

namespace Storage

/-- The slot that a handle names. -/
def slot : Handle → Option Nat
  | .nth (k + 1) => some k
  | _ => none

def get? (s : Storage) (h : Handle) : Option Instr := (slot h).bind fun k => s.arena[k]?

def contains (s : Storage) (h : Handle) : Bool := (s.get? h).isSome

def position? (s : Storage) (h : Handle) : Option Nat := s.order.idxOf? h

def at? (s : Storage) (position : Nat) : Option Handle := s.order[position]?

def next? (s : Storage) (h : Handle) : Option Handle :=
  (s.position? h).bind fun position => s.at? (position + 1)

/-- Change what a slot holds; a handle without a slot changes nothing. -/
def modify (s : Storage) (h : Handle) (f : Instr → Instr) : Storage :=
  match slot h with
  | some k => { s with arena := s.arena.modify k f }
  | none => s

/-- Give each of some instructions the next slot. -/
def allocate (s : Storage) : List Instr → List Handle × Storage
  | [] => ([], s)
  | i :: rest =>
    let (handles, s') := allocate { s with arena := s.arena ++ [i] } rest
    (.nth (s.arena.length + 1) :: handles, s')

def insertAt (s : Storage) (position : Nat) (run : List Instr) : List Handle × Storage :=
  let (handles, s') := s.allocate run
  (handles, { s' with order := s'.order.take position ++ (handles ++ s'.order.drop position) })

/-- A handle other than `goal` that names a branch to `source`. -/
def redirects (s : Storage) (source goal h : Handle) : Bool :=
  h != goal && (s.get? h).bind Instr.target? == some source

/-- Look at one instruction, and redirect and count it if it is a branch to `source`. -/
def redirect (source goal : Handle) (done : Nat × Storage) (h : Handle) : Nat × Storage :=
  if done.2.redirects source goal h then (done.1 + 1, done.2.modify h (Instr.withTarget goal))
  else done

/-- Look at one instruction after the other, in order. -/
def retarget (s : Storage) (source goal : Handle) : Nat × Storage :=
  s.order.foldl (redirect source goal) (0, s)

def edit (s : Storage) : Edit → Reply × Storage
  | .push i =>
    let (handles, s') := s.allocate [i]
    (.ok (.inserted handles), { s' with order := s'.order ++ handles })
  | .insertBefore anchor run => match s.position? anchor with
    | some p => (.ok (.inserted (s.insertAt p run).1), (s.insertAt p run).2)
    | none => (.error ⟨anchor⟩, s)
  | .insertAfter anchor run => match s.position? anchor with
    | some p => (.ok (.inserted (s.insertAt (p + 1) run).1), (s.insertAt (p + 1) run).2)
    | none => (.error ⟨anchor⟩, s)
  | .insertBeforeRetargeting anchor run => match s.position? anchor with
    | some p => (.ok (.inserted (s.insertAt p run).1),
      match (s.insertAt p run).1.head? with
      | some head => ((s.insertAt p run).2.retarget anchor head).2
      | none => (s.insertAt p run).2)
    | none => (.error ⟨anchor⟩, s)
  | .setBranchTarget h target =>
    if !s.contains target then (.error ⟨target⟩, s)
    else match (s.get? h).bind Instr.target? with
      | some _ => (.ok .pointed, s.modify h (Instr.withTarget target))
      | none => (.error ⟨h⟩, s)
  | .retarget source goal =>
    (.ok (.retargeted (s.retarget source goal).1), (s.retarget source goal).2)
  | .overwrite h i => (.ok (.overwritten (s.contains h)), s.modify h fun _ => i)

/-- Carry out some edits one after the other. -/
def editAll (s : Storage) : List Edit → List Reply × Storage
  | [] => ([], s)
  | e :: rest => ((s.edit e).1 :: ((s.edit e).2.editAll rest).1, ((s.edit e).2.editAll rest).2)

/-! ## Slots -/

variable {s s' : Storage} {b : Body} {h : Handle} {i : Instr} {run : List Instr} {k : Nat}
  {source goal : Handle} {among : List Handle}

theorem slot_eq_some : slot h = some k ↔ h = .nth (k + 1) := by
  cases h with
  | null => simp [slot]
  | nth n => cases n <;> simp [slot]

/-- The handles of a body name the slots up to its length. -/
theorem mem_handles_iff_slot : h ∈ b.handles ↔ ∃ k < b.length, slot h = some k := by
  simp only [Body.mem_handles, slot_eq_some]
  constructor
  · rintro ⟨k, positive, small, rfl⟩
    exact ⟨k - 1, by omega, by rw [Nat.sub_add_cancel positive]⟩
  · rintro ⟨k, small, rfl⟩
    exact ⟨k + 1, Nat.zero_lt_succ k, small, rfl⟩

theorem get?_modify (s : Storage) (h h' : Handle) (f : Instr → Instr) :
    (s.modify h f).get? h' = if h' = h then (s.get? h').map f else s.get? h' := by
  cases named : slot h with
  | none =>
    simp only [modify, named]
    split
    · next same => simp [get?, same, named]
    · rfl
  | some k =>
    obtain rfl := slot_eq_some.1 named
    simp only [modify, named, get?]
    cases named' : slot h' with
    | none =>
      have other : h' ≠ .nth (k + 1) := by
        rintro rfl
        rw [named] at named'
        cases named'
      rw [if_neg other]
      rfl
    | some k' =>
      obtain rfl := slot_eq_some.1 named'
      simp only [Option.bind_some, List.getElem?_modify, Handle.nth.injEq, Nat.add_right_cancel_iff]
      by_cases same : k' = k
      · simp [same]
      · simp [same, Ne.symm same]

theorem order_modify (s : Storage) (h : Handle) (f : Instr → Instr) :
    (s.modify h f).order = s.order := by
  unfold modify
  split <;> rfl

theorem length_modify (s : Storage) (h : Handle) (f : Instr → Instr) :
    (s.modify h f).arena.length = s.arena.length := by
  unfold modify
  split
  · exact List.length_modify _ _ _
  · rfl

theorem allocate_eq (s : Storage) (run : List Instr) : s.allocate run =
    (Handle.series s.arena.length run.length, { s with arena := s.arena ++ run }) := by
  induction run generalizing s with
  | nil => simp [allocate, Handle.series]
  | cons i rest ih =>
    rw [allocate, ih]
    simp [Handle.series, List.range'_succ]

/-! ## Redirecting in order -/

/-- Of some handles, those that name branches to `source` name branches to `goal` then. -/
structure Redirected (s : Storage) (source goal : Handle) (among : List Handle) (s' : Storage) :
    Prop where
  order : s'.order = s.order
  count : s'.arena.length = s.arena.length
  instrs : ∀ h, s'.get? h = if h ∈ among ∧ s.redirects source goal h = true
    then (s.get? h).map (Instr.withTarget goal) else s.get? h

theorem Redirected.redirects (redirected : s.Redirected source goal among s')
    (other : h ∉ among) : s'.redirects source goal h = s.redirects source goal h := by
  have same : s'.get? h = s.get? h := by
    rw [redirected.instrs, if_neg fun ⟨listed, _⟩ => other listed]
  rw [Storage.redirects, same]
  rfl

theorem redirected_redirect (s : Storage) (source goal h : Handle) (n : Nat) :
    s.Redirected source goal [h] (redirect source goal (n, s) h).2 := by
  unfold redirect
  split
  · next redirects =>
    refine ⟨order_modify _ _ _, length_modify _ _ _, fun h' => ?_⟩
    rw [get?_modify]
    by_cases same : h' = h
    · subst same
      rw [if_pos rfl, if_pos ⟨List.mem_singleton_self h', redirects⟩]
    · rw [if_neg same, if_neg fun ⟨listed, _⟩ => same (List.mem_singleton.1 listed)]
  · next kept =>
    refine ⟨rfl, rfl, fun h' => ?_⟩
    rw [if_neg]
    rintro ⟨same, redirects⟩
    rw [List.mem_singleton.1 same] at redirects
    exact kept redirects

/-- The loop by induction on the handles still to come: a handle is looked at once, so those
before it leave it as it was. -/
theorem redirected_foldl (source goal : Handle) (once : among.Nodup) (n : Nat) (s : Storage) :
    (among.foldl (redirect source goal) (n, s)).1 =
        n + among.countP (s.redirects source goal) ∧
      s.Redirected source goal among (among.foldl (redirect source goal) (n, s)).2 := by
  induction among generalizing n s with
  | nil => exact ⟨rfl, rfl, rfl, fun h => by simp⟩
  | cons h rest ih =>
    obtain ⟨new, once⟩ := List.nodup_cons.1 once
    have first := redirected_redirect s source goal h n
    obtain ⟨count, order, slots, instrs⟩ := ih once (redirect source goal (n, s) h).1
      (redirect source goal (n, s) h).2
    have same {h' : Handle} (listed : h' ∈ rest) := first.redirects (h := h') fun named =>
      new (List.mem_singleton.1 named ▸ listed)
    rw [List.foldl_cons]
    refine ⟨?_, order.trans first.order, slots.trans first.count, fun h' => ?_⟩
    · have step : (redirect source goal (n, s) h).1 =
          n + if s.redirects source goal h then 1 else 0 := by
        unfold redirect
        split <;> rfl
      rw [count, step, List.countP_cons, List.countP_congr fun h' listed => by rw [same listed]]
      omega
    · rw [instrs, first.instrs]
      by_cases listed : h' ∈ rest
      · have other : h' ≠ h := fun here => new (here ▸ listed)
        simp [listed, other, same listed]
      · simp [listed]

/-! ## The two parts and the lines -/

/-- The order lists the handles of the body, and each slot holds what its handle names. -/
structure Stores (s : Storage) (b : Body) : Prop where
  order : s.order = b.handles
  count : s.arena.length = b.length
  instrs : ∀ h, s.get? h = b.get? h

namespace Stores

variable (stores : s.Stores b)

include stores

theorem contains (h : Handle) : s.contains h = b.contains h := by
  rw [Storage.contains, stores.instrs, Bool.eq_iff_iff, Body.contains_iff, ← Body.exists_get?,
    Option.isSome_iff_exists]

theorem position? (h : Handle) : s.position? h = b.position? h := by
  rw [Storage.position?, stores.order]
  rfl

theorem modify (h : Handle) (f : Instr → Instr) :
    (s.modify h f).Stores (b.mapInstrs fun h' i => if h' = h then f i else i) where
  order := by rw [order_modify, stores.order, Body.handles_mapInstrs]
  count := (length_modify _ _ _).trans (stores.count.trans (List.length_map _).symm)
  instrs h' := by
    rw [get?_modify, stores.instrs, Body.get?_mapInstrs]
    by_cases same : h' = h
    · simp [same]
    · simp [same]

theorem allocate (run : List Instr) :
    s.allocate run = (b.nextHandles run.length, { s with arena := s.arena ++ run }) := by
  rw [allocate_eq, stores.count]
  rfl

theorem get?_allocated (p : Nat) (run : List Instr) (order : List Handle) (h : Handle) :
    Storage.get? ⟨s.arena ++ run, order⟩ h = (b.insertAt p run).get? h := by
  cases known : (b.insertAt p run).get? h with
  | none =>
    refine Option.bind_eq_none_iff.2 fun k named => List.getElem?_eq_none ?_
    have missing := mt mem_handles_iff_slot.2 (Body.get?_eq_none.1 known)
    rw [List.length_append, stores.count, ← Body.length_insertAt b p run]
    exact Nat.le_of_not_lt fun inside => missing ⟨k, inside, named⟩
  | some i =>
    obtain ⟨k, inside, named⟩ := mem_handles_iff_slot.1 (Body.exists_get?.1 ⟨i, known⟩)
    rw [Storage.get?, named, Option.bind_some, ← known]
    by_cases old : k < b.length
    · rw [List.getElem?_append_left (stores.count.symm ▸ old),
        Body.get?_insertAt_old (mem_handles_iff_slot.2 ⟨k, old, named⟩), ← stores.instrs,
        Storage.get?, named, Option.bind_some]
    · obtain ⟨j, rfl⟩ := Nat.exists_eq_add_of_le (Nat.le_of_not_lt old)
      have bound : j < run.length := by
        rw [Body.length_insertAt] at inside
        omega
      rw [slot_eq_some.1 named, List.getElem?_append_right (by rw [stores.count]; omega),
        stores.count, Nat.add_sub_cancel_left, Nat.add_right_comm,
        Body.get?_insertAt_new (List.getElem?_eq_getElem bound), List.getElem?_eq_getElem bound]

theorem insertAt (p : Nat) (run : List Instr) :
    (s.insertAt p run).1 = b.nextHandles run.length ∧
      (s.insertAt p run).2.Stores (b.insertAt p run) := by
  rw [Storage.insertAt, stores.allocate]
  refine ⟨rfl, ?_, ?_, fun h => stores.get?_allocated p run _ h⟩
  · rw [Body.handles_insertAt, stores.order]
  · rw [Body.length_insertAt, List.length_append, stores.count]

theorem push (i : Instr) : ∃ s', s.edit (.push i) =
    (.ok (.inserted (b.nextHandles 1)), s') ∧ s'.Stores (b.append [i]) := by
  refine ⟨_, by rw [edit, stores.allocate]; rfl, ?_, ?_, fun h => stores.get?_allocated _ [i] _ h⟩
  · have whole : b.handles.length = b.length := List.length_map _
    show s.order ++ _ = _
    rw [Body.append, Body.handles_insertAt, List.take_of_length_le (by omega),
      List.drop_of_length_le (by omega), List.append_nil, stores.order]
  · rw [Body.append, Body.length_insertAt, List.length_append, stores.count]

theorem redirects (line : (h, i) ∈ b.lines) :
    s.redirects source goal h = Body.isRetargeted source goal (h, i) := by
  rw [Storage.redirects, stores.instrs, Body.get?_eq_some.2 line]
  rfl

theorem retarget (source goal : Handle) :
    (s.retarget source goal).1 = b.retargetCount source goal ∧
      (s.retarget source goal).2.Stores (b.retarget source goal) := by
  have once : s.order.Nodup := stores.order ▸ b.nodup_handles
  obtain ⟨count, redirected⟩ := redirected_foldl source goal once 0 s
  refine ⟨?_, ?_, ?_, fun h => ?_⟩
  · rw [Storage.retarget, count, Nat.zero_add, stores.order, Body.handles, List.countP_map]
    exact List.countP_congr fun l line => by rw [Function.comp, stores.redirects line]
  · rw [Body.handles_retarget, ← stores.order]
    exact redirected.order
  · exact redirected.count.trans (stores.count.trans (List.length_map _).symm)
  · rw [Storage.retarget, redirected.instrs, stores.instrs, Body.retarget, Body.get?_mapInstrs]
    cases known : b.get? h with
    | none => simp
    | some i =>
      have line := Body.get?_eq_some.1 known
      have listed : h ∈ s.order := stores.order ▸ Body.fst_mem_handles line
      rw [stores.redirects line]
      by_cases redirected : Body.isRetargeted source goal (h, i) = true
      · simp [listed, redirected]
      · simp [redirected]

/-- One edit does the same to the two parts as to the lines. -/
theorem edit (e : Edit) :
    (s.edit e).1 = (b.edit e).1 ∧ (s.edit e).2.Stores (b.edit e).2 := by
  cases e with
  | push i =>
    obtain ⟨s', edited, stored⟩ := stores.push i
    rw [edited]
    exact ⟨rfl, stored⟩
  | insertBefore anchor run =>
    rw [Storage.edit, Body.edit_insertBefore, stores.position?]
    cases b.position? anchor with
    | none => exact ⟨rfl, stores⟩
    | some p =>
      obtain ⟨handles, stored⟩ := stores.insertAt p run
      simp only [handles]
      exact ⟨trivial, stored⟩
  | insertAfter anchor run =>
    rw [Storage.edit, Body.edit_insertAfter, stores.position?]
    cases b.position? anchor with
    | none => exact ⟨rfl, stores⟩
    | some p =>
      obtain ⟨handles, stored⟩ := stores.insertAt (p + 1) run
      simp only [handles]
      exact ⟨trivial, stored⟩
  | insertBeforeRetargeting anchor run =>
    rw [Storage.edit, Body.edit_insertBeforeRetargeting, stores.position?]
    cases b.position? anchor with
    | none => exact ⟨rfl, stores⟩
    | some p =>
      obtain ⟨handles, stored⟩ := stores.insertAt p run
      simp only [handles]
      refine ⟨trivial, ?_⟩
      cases (b.nextHandles run.length).head? with
      | none => exact stored
      | some head => exact (stored.retarget anchor head).2
  | setBranchTarget h target =>
    simp only [Storage.edit, Body.edit, Body.setBranchTarget, stores.contains, stores.instrs]
    cases b.contains target with
    | false => exact ⟨rfl, stores⟩
    | true =>
      cases (b.get? h).bind Instr.target? with
      | none => exact ⟨rfl, stores⟩
      | some old => exact ⟨rfl, stores.modify h _⟩
  | retarget source goal =>
    obtain ⟨count, stored⟩ := stores.retarget source goal
    exact ⟨by rw [Storage.edit, count]; rfl, stored⟩
  | overwrite h i => exact ⟨by rw [Storage.edit, stores.contains]; rfl, stores.modify h _⟩

theorem editAll (edits : List Edit) :
    (s.editAll edits).1 = (b.editAll edits).1 ∧ (s.editAll edits).2.Stores (b.editAll edits).2 := by
  induction edits generalizing s b with
  | nil => exact ⟨rfl, stores⟩
  | cons e rest ih =>
    obtain ⟨reply, stored⟩ := stores.edit e
    obtain ⟨replies, stored'⟩ := ih stored
    exact ⟨by rw [Storage.editAll, Body.editAll, reply, replies], stored'⟩

end Stores

/-- What the parts and the readers say goes together. -/
structure Consistent (s : Storage) : Prop where
  once : s.order.Nodup
  known : ∀ h, s.contains h = true ↔ h ∈ s.order
  placed : ∀ h, (∃ p, s.position? h = some p) ↔ h ∈ s.order
  same : ∀ h p, s.position? h = some p ↔ s.at? p = some h
  next : ∀ h p, s.position? h = some p → s.next? h = s.at? (p + 1)

theorem Stores.consistent (stores : s.Stores b) : s.Consistent where
  once := stores.order ▸ b.nodup_handles
  known h := by rw [stores.contains, stores.order, Body.contains_iff]
  placed h := by simp only [stores.position?, stores.order, Body.position?_isSome]
  same h p := by
    rw [stores.position?, Body.position?_eq_some_iff_at?, at?, stores.order]
    rfl
  next h p found := by rw [next?, found, Option.bind_some]

end Storage

namespace Body

/-- A body as it is stored. -/
def stored (b : Body) : Storage where
  arena := (Handle.series 0 b.length).map fun h => (b.get? h).getD default
  order := b.handles

theorem length_arena_stored (b : Body) : b.stored.arena.length = b.length := by
  rw [stored, List.length_map, Handle.length_series]

theorem stores_stored (b : Body) : b.stored.Stores b where
  order := rfl
  count := b.length_arena_stored
  instrs h := by
    cases known : b.get? h with
    | none =>
      refine Option.bind_eq_none_iff.2 fun k named => List.getElem?_eq_none ?_
      have missing := mt Storage.mem_handles_iff_slot.2 (get?_eq_none.1 known)
      rw [length_arena_stored]
      exact Nat.le_of_not_lt fun inside => missing ⟨k, inside, named⟩
    | some i =>
      obtain ⟨k, inside, named⟩ := Storage.mem_handles_iff_slot.1 (exists_get?.1 ⟨i, known⟩)
      have here : (Handle.series 0 b.length)[k]? = some h := by
        rw [Storage.slot_eq_some.1 named]
        simp [Handle.series, inside, Nat.add_comm]
      rw [Storage.get?, named, Option.bind_some, stored, List.getElem?_map, here, Option.map_some,
        known, Option.getD_some]

end Body

theorem Storage.Stores.eq_stored {s : Storage} {b : Body} (stores : s.Stores b) :
    s = b.stored := by
  have slots (k : Nat) : s.arena[k]? = b.stored.arena[k]? :=
    (stores.instrs (.nth (k + 1))).trans (b.stores_stored.instrs (.nth (k + 1))).symm
  cases s with
  | mk arena order => exact congrArg₂ Storage.mk (List.ext_getElem? slots) stores.order

/-- Whatever the edits, the stored body goes through them as the lines do and answers the same.
After any number of them the handles are those from before and those handed out, and one more
edit does what it says, or fails and changes nothing. -/
theorem Body.stored_editAll (b : Body) (edits : List Edit) : ∃ replies b',
    b.editAll edits = (replies, b') ∧ b.stored.editAll edits = (replies, b'.stored) ∧
      b.Evolved edits replies b' ∧ b'.stored.Consistent ∧
      ∀ e, ∃ reply b'', b'.edit e = (reply, b'') ∧ b'.stored.edit e = (reply, b''.stored) ∧
        b'.Edited e reply b'' := by
  obtain ⟨replies, stored⟩ := b.stores_stored.editAll edits
  refine ⟨_, _, rfl, Prod.ext replies stored.eq_stored, b.evolved edits,
    (stores_stored _).consistent, fun e => ?_⟩
  obtain ⟨reply, stored'⟩ := (stores_stored (b.editAll edits).2).edit e
  exact ⟨_, _, rfl, Prod.ext reply stored'.eq_stored, edited _ e⟩

end ReleaseWeaver
