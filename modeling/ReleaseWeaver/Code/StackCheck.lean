import ReleaseWeaver.Code.Flow

/-
  The check of the evaluation stack. A depth-first search gives each position reached from the
  first one the depth of the stack before it; an instruction must find its operands, two paths to
  one position must agree, and a `ret` must find the result and nothing else. The search visits
  every position at most once: what it has still to look at, the positions without a depth and
  the pending ones, grows less with each visit.
-/

namespace ReleaseWeaver

/-- How far a search has come: the depth before each position seen so far, the positions still to
visit, and the greatest depth. -/
structure StackSearch where
  depths : List (Option Nat)
  pending : List Nat
  deepest : Nat

namespace StackSearch

def start (b : Body) : StackSearch where
  depths := (List.replicate b.length none).set 0 (some 0)
  pending := [0]
  deepest := 0

def remaining (s : StackSearch) : Nat := s.depths.count none + s.pending.length

/-- Reach a position with a depth. -/
def reach (after : Nat) (s : StackSearch) (position : Nat) : Except FlowError StackSearch :=
  match s.depths[position]? with
  | some none => .ok { s with
      depths := s.depths.set position (some after), pending := position :: s.pending }
  | some (some seen) =>
    if seen = after then .ok s else .error (.inconsistentDepth position seen after)
  | none => .ok s

def reachAll (after : Nat) (s : StackSearch) : List Nat → Except FlowError StackSearch
  | [] => .ok s
  | position :: rest => match s.reach after position with
    | .ok s' => reachAll after s' rest
    | .error e => .error e

/-- The depth after an instruction that finds `before` values. -/
def depthAfter (returnsValue : Bool) (position : Nat) (i : Instr) (before : Nat) :
    Except FlowError Nat :=
  if i.isRet && before != returnsValue.toNat then
    .error (.unbalancedReturn position returnsValue.toNat before)
  else if before < i.pops returnsValue then
    .error (.stackUnderflow position i.text (i.pops returnsValue) before)
  else .ok (before - i.pops returnsValue + i.pushes)

/-- Visit a position that has its depth. -/
def visit (b : Body) (returnsValue : Bool) (flow : List (List Nat)) (s : StackSearch)
    (position : Nat) : Except FlowError StackSearch :=
  match b.lines[position]?, s.depths[position]? with
  | some (_, i), some (some before) => match depthAfter returnsValue position i before with
    | .ok after =>
      reachAll after { s with deepest := max s.deepest (max before after) } (flow[position]?.getD [])
    | .error e => .error e
  | _, _ => .ok s

theorem reach_remaining {after : Nat} {s s' : StackSearch} {position : Nat}
    (h : s.reach after position = .ok s') : s'.remaining ≤ s.remaining := by
  unfold reach at h
  split at h
  · next unset =>
    cases h
    obtain ⟨inside, here⟩ := List.getElem?_eq_some_iff.1 unset
    have counted : 0 < s.depths.count none :=
      List.count_pos_iff.2 (here ▸ List.getElem_mem inside)
    simp only [remaining, List.length_cons, List.count_set inside, here, beq_self_eq_true,
      if_true]
    simp
    omega
  · split at h
    · cases h; exact Nat.le_refl _
    · cases h
  · cases h; exact Nat.le_refl _

theorem reachAll_remaining {after : Nat} {s s' : StackSearch} {positions : List Nat}
    (h : s.reachAll after positions = .ok s') : s'.remaining ≤ s.remaining := by
  induction positions generalizing s with
  | nil => cases h; exact Nat.le_refl _
  | cons position rest ih =>
    unfold reachAll at h
    split at h
    · next reached => exact Nat.le_trans (ih h) (reach_remaining reached)
    · cases h

theorem visit_remaining {b : Body} {returnsValue : Bool} {flow : List (List Nat)}
    {s s' : StackSearch} {position : Nat} (h : s.visit b returnsValue flow position = .ok s') :
    s'.remaining ≤ s.remaining := by
  unfold visit at h
  split at h
  · split at h
    · have bound := reachAll_remaining h
      exact bound
    · cases h
  · cases h; exact Nat.le_refl _

/-- Visit the pending positions, the latest first, until none is left. -/
def run (b : Body) (returnsValue : Bool) (flow : List (List Nat)) (s : StackSearch) :
    Except FlowError StackSearch :=
  match pending : s.pending with
  | [] => .ok s
  | position :: rest =>
    match visited : visit b returnsValue flow { s with pending := rest } position with
    | .ok s' =>
      have : s'.remaining < s.remaining := by
        have bound := visit_remaining visited
        simp only [remaining, pending, List.length_cons] at bound ⊢
        omega
      run b returnsValue flow s'
    | .error e => .error e
termination_by s.remaining

end StackSearch

/-- The greatest depth of the evaluation stack of a body that passes the check. -/
def Body.verifyStack (b : Body) (returnsValue : Bool) : Except FlowError Nat :=
  if b.isEmpty then .error .fallsThroughEnd
  else match b.flow with
    | .ok flow =>
      (StackSearch.run b returnsValue flow (StackSearch.start b)).map StackSearch.deepest
    | .error e => .error e

end ReleaseWeaver
