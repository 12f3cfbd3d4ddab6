import ReleaseWeaver.Proofs.Code.Lines

/-
  What the stack check decides. A depth map gives instructions the depth of the stack before
  them: the first one has depth 0, an instruction with a depth finds its operands, and what may
  follow it has the depth that it leaves. Main statement: a body passes the check exactly when
  it has an instruction, its branches stay inside, its last instruction does not fall through,
  and it has a depth map. The search finds the least such map, which covers what control reaches.
-/

namespace ReleaseWeaver

namespace Instr

/-- Whether an instruction can run on so many values. -/
def Fits (i : Instr) (returnsValue : Bool) (before : Nat) : Prop :=
  i.pops returnsValue ≤ before ∧ (i.isRet = true → before = returnsValue.toNat)

/-- The depth that an instruction leaves. -/
def depthAfter (i : Instr) (returnsValue : Bool) (before : Nat) : Nat :=
  before - i.pops returnsValue + i.pushes

end Instr

theorem StackSearch.depthAfter_eq_ok {returnsValue : Bool} {position before after : Nat}
    {i : Instr} : StackSearch.depthAfter returnsValue position i before = .ok after ↔
      i.Fits returnsValue before ∧ after = i.depthAfter returnsValue before := by
  unfold StackSearch.depthAfter Instr.Fits Instr.depthAfter
  split
  · next unbalanced =>
    simp only [Bool.and_eq_true, bne_iff_ne, ne_eq] at unbalanced
    simp [unbalanced]
  · next balanced =>
    split
    · next short => simp; omega
    · next enough =>
      simp only [Bool.and_eq_true, bne_iff_ne, ne_eq, not_and, Decidable.not_not] at balanced
      rw [Except.ok.injEq]
      constructor
      · rintro rfl
        exact ⟨⟨by omega, balanced⟩, rfl⟩
      · rintro ⟨_, rfl⟩
        rfl

namespace Body

/-- Every branch leads to an instruction, and control does not run past the last one. -/
structure Closed (b : Body) : Prop where
  targets : ∀ l ∈ b.lines, ∀ t, l.2.target? = some t → t ∈ b.handles
  ends : ∀ l, b.lines.getLast? = some l → l.2.fallsThrough = false

/-- Depths of the stack that agree along the flow of a body. -/
structure DepthMap (b : Body) (returnsValue : Bool) (depth : Handle → Option Nat) : Prop where
  entry : ∃ l, b.lines.head? = some l ∧ depth l.1 = some 0
  fits : ∀ l ∈ b.lines, ∀ n, depth l.1 = some n → l.2.Fits returnsValue n
  jumps : ∀ l ∈ b.lines, ∀ t, l.2.target? = some t → ∀ n, depth l.1 = some n →
    depth t = some (l.2.depthAfter returnsValue n)
  follows : b.lines.IsChain fun l l' => l.2.fallsThrough = true → ∀ n, depth l.1 = some n →
    depth l'.1 = some (l.2.depthAfter returnsValue n)

/-- What the check decides. -/
def WellStacked (b : Body) (returnsValue : Bool) : Prop :=
  b.Closed ∧ ∃ depth, b.DepthMap returnsValue depth

/-! ## The flow -/

theorem targetPosition_eq_ok {b : Body} {p : Nat} {i : Instr} {qs : List Nat} :
    b.targetPosition p i = .ok qs ↔
      (∀ t, i.target? = some t → t ∈ b.handles) ∧
        qs = (i.target?.bind b.position?).toList := by
  unfold targetPosition
  cases target : i.target? with
  | none => simp [eq_comm]
  | some t =>
    cases found : b.position? t with
    | none =>
      have absent : t ∉ b.handles := fun listed => by
        obtain ⟨q, there⟩ := position?_isSome.2 listed
        rw [found] at there
        cases there
      simp [found, absent]
    | some q =>
      have listed : t ∈ b.handles := position?_isSome.1 ⟨q, found⟩
      simp [found, listed, eq_comm]

theorem nextPosition_eq_ok {b : Body} {p : Nat} {i : Instr} {qs : List Nat} :
    b.nextPosition p i = .ok qs ↔
      (i.fallsThrough = true → p + 1 < b.length) ∧
        qs = if i.fallsThrough then [p + 1] else [] := by
  unfold nextPosition
  by_cases falls : i.fallsThrough = true
  · by_cases inside : p + 1 < b.length <;> simp [falls, inside, eq_comm]
  · simp [falls, eq_comm]

/-- The positions after an instruction. -/
theorem successorsAt_eq_ok {b : Body} {p : Nat} {i : Instr} {qs : List Nat}
    (h : b.successorsAt p i = .ok qs) :
    (∀ t, i.target? = some t → t ∈ b.handles) ∧ (i.fallsThrough = true → p + 1 < b.length) ∧
      ∀ q, q ∈ qs ↔ i.target?.bind b.position? = some q ∨ i.fallsThrough = true ∧ q = p + 1 := by
  unfold successorsAt at h
  split at h
  · cases h
  · next targets jumps =>
    split at h
    · cases h
    · next next' falls =>
      obtain ⟨inside, rfl⟩ := targetPosition_eq_ok.1 jumps
      obtain ⟨bound, rfl⟩ := nextPosition_eq_ok.1 falls
      cases h
      refine ⟨inside, bound, fun q => ?_⟩
      by_cases jump : i.target?.bind b.position? = some q <;>
        by_cases fall : i.fallsThrough = true <;>
          simp [jump, fall, Option.mem_toList]

theorem successorsAt_isOk {b : Body} {p : Nat} {i : Instr}
    (targets : ∀ t, i.target? = some t → t ∈ b.handles)
    (inside : i.fallsThrough = true → p + 1 < b.length) : ∃ qs, b.successorsAt p i = .ok qs := by
  unfold successorsAt
  rw [targetPosition_eq_ok.2 ⟨targets, rfl⟩, nextPosition_eq_ok.2 ⟨inside, rfl⟩]
  exact ⟨_, rfl⟩

end Body

/-- A list of computations that all succeed. -/
theorem mapM_ok_iff {α β ε : Type} {f : α → Except ε β} {xs : List α} {ys : List β} :
    xs.mapM f = .ok ys ↔ List.Forall₂ (fun x y => f x = .ok y) xs ys := by
  induction xs generalizing ys with
  | nil =>
    rw [List.mapM_nil]
    constructor
    · intro h
      cases h
      exact .nil
    · intro h
      cases h
      rfl
  | cons x xs ih =>
    rw [List.mapM_cons]
    cases head : f x with
    | error e =>
      constructor
      · intro h
        cases h
      · intro h
        cases h with
        | cons good _ => rw [head] at good; cases good
    | ok y =>
      cases tail : xs.mapM f with
      | error e =>
        constructor
        · intro h
          cases h
        · intro h
          cases h with
          | cons _ rest => rw [ih.2 rest] at tail; cases tail
      | ok zs =>
        constructor
        · intro h
          cases h
          exact .cons head (ih.1 tail)
        · intro h
          cases h with
          | cons good rest =>
            rw [head] at good
            rw [ih.2 rest] at tail
            cases good
            cases tail
            rfl

theorem mapM_isOk {α β ε : Type} {f : α → Except ε β} {xs : List α}
    (each : ∀ x ∈ xs, ∃ y, f x = .ok y) : ∃ ys, xs.mapM f = .ok ys := by
  induction xs with
  | nil => exact ⟨[], rfl⟩
  | cons x xs ih =>
    obtain ⟨y, head⟩ := each x List.mem_cons_self
    obtain ⟨ys, tail⟩ := ih fun x' listed => each x' (List.mem_cons_of_mem x listed)
    exact ⟨y :: ys, mapM_ok_iff.2 (.cons head (mapM_ok_iff.1 tail))⟩

namespace Body

theorem flow_get {b : Body} {flow : List (List Nat)} (h : b.flow = .ok flow) {p : Nat}
    {l : Handle × Instr} (line : b.lines[p]? = some l) :
    ∃ qs, flow[p]? = some qs ∧ b.successorsAt p l.2 = .ok qs := by
  have each := mapM_ok_iff.1 h
  obtain ⟨inside, eq⟩ := List.getElem?_eq_some_iff.1 line
  have inside' : p < b.lines.zipIdx.length := by simpa using inside
  have inside'' : p < flow.length := by rw [← each.length_eq]; exact inside'
  have here := each.get inside' inside''
  refine ⟨flow[p], List.getElem?_eq_getElem inside'', ?_⟩
  simpa [eq] using here

theorem closed_of_flow {b : Body} {flow : List (List Nat)} (h : b.flow = .ok flow) :
    b.Closed where
  targets l line t target := by
    obtain ⟨p, inside, rfl⟩ := List.mem_iff_getElem.1 line
    obtain ⟨qs, _, ok⟩ := flow_get h (List.getElem?_eq_getElem inside)
    exact (successorsAt_eq_ok ok).1 t target
  ends l last := by
    rw [List.getLast?_eq_getElem?] at last
    obtain ⟨qs, _, ok⟩ := flow_get h last
    obtain ⟨inside, _⟩ := List.getElem?_eq_some_iff.1 last
    by_contra falls
    have beyond := (successorsAt_eq_ok ok).2.1 (by simpa using falls)
    simp only [length] at beyond
    omega

theorem flow_of_closed {b : Body} (closed : b.Closed) : ∃ flow, b.flow = .ok flow := by
  have each : ∀ x ∈ b.lines.zipIdx, ∃ qs, b.successorsAt x.2 x.1.2 = .ok qs := by
    rintro ⟨l, p⟩ listed
    have line : b.lines[p]? = some l := List.mk_mem_zipIdx_iff_getElem?.1 listed
    obtain ⟨inside, eq⟩ := List.getElem?_eq_some_iff.1 line
    refine successorsAt_isOk (closed.targets l (List.mem_of_getElem? line)) fun falls => ?_
    by_contra beyond
    have last : b.lines.getLast? = some l := by
      rw [List.getLast?_eq_getElem?, show b.lines.length - 1 = p by
        simp only [length] at beyond; omega, line]
    rw [closed.ends l last] at falls
    cases falls
  exact mapM_isOk each

end Body

/-! ## The search -/

namespace StackSearch

/-- A position and the depth it has been reached with. -/
def Knows (s : StackSearch) (p n : Nat) : Prop := s.depths[p]? = some (some n)

theorem Knows.unique {s : StackSearch} {p n n' : Nat} (h : s.Knows p n) (h' : s.Knows p n') :
    n = n' := by
  rw [Knows, h] at h'
  cases h'
  rfl

theorem Knows.inside {s : StackSearch} {p n : Nat} (h : s.Knows p n) : p < s.depths.length :=
  (List.getElem?_eq_some_iff.1 h).1

/-- `s'` is `s` after the positions `qs` have been reached with the depth `after`. -/
structure Extends (after : Nat) (qs : List Nat) (s s' : StackSearch) : Prop where
  length : s'.depths.length = s.depths.length
  keeps : ∀ p n, s.Knows p n → s'.Knows p n
  waits : ∀ p ∈ s.pending, p ∈ s'.pending
  reached : ∀ q ∈ qs, q < s.depths.length → s'.Knows q after
  fresh : ∀ p n, s'.Knows p n → s.Knows p n ∨ p ∈ qs ∧ n = after ∧ p ∈ s'.pending

theorem extends_refl (after : Nat) (s : StackSearch) : Extends after [] s s where
  length := rfl
  keeps _ _ known := known
  waits _ waiting := waiting
  reached _ none_listed := absurd none_listed List.not_mem_nil
  fresh _ _ known := .inl known

theorem Extends.trans {after : Nat} {qs qs' : List Nat} {s s' s'' : StackSearch}
    (h : Extends after qs s s') (h' : Extends after qs' s' s'') :
    Extends after (qs ++ qs') s s'' where
  length := h'.length.trans h.length
  keeps p n known := h'.keeps p n (h.keeps p n known)
  waits p waiting := h'.waits p (h.waits p waiting)
  reached q listed inside := by
    rcases List.mem_append.1 listed with first | second
    · exact h'.keeps q after (h.reached q first inside)
    · exact h'.reached q second (h.length.symm ▸ inside)
  fresh p n known := by
    rcases h'.fresh p n known with old | ⟨listed, same, waiting⟩
    · rcases h.fresh p n old with older | ⟨listed, same, waiting⟩
      · exact .inl older
      · exact .inr ⟨List.mem_append_left _ listed, same, h'.waits p waiting⟩
    · exact .inr ⟨List.mem_append_right _ listed, same, waiting⟩

theorem reach_extends {after q : Nat} {s s' : StackSearch} (h : s.reach after q = .ok s') :
    Extends after [q] s s' := by
  unfold reach at h
  split at h
  · next unset =>
    obtain ⟨inside, here⟩ := List.getElem?_eq_some_iff.1 unset
    cases h
    refine ⟨by simp, fun p n known => ?_, fun p waiting => by simp [waiting], ?_, ?_⟩
    · have other : q ≠ p := by
        rintro rfl
        rw [Knows, unset] at known
        cases known
      simpa [Knows, List.getElem?_set_ne other] using known
    · intro q' listed _
      rw [List.mem_singleton.1 listed]
      simp [Knows, List.getElem?_set_self inside]
    · intro p n known
      by_cases same : q = p
      · subst same
        simp only [Knows, List.getElem?_set_self inside, Option.some.injEq] at known
        exact .inr ⟨by simp, known.symm, by simp⟩
      · simp only [Knows, List.getElem?_set_ne same] at known
        exact .inl known
  · next seen known =>
    split at h
    · next same =>
      cases h
      refine ⟨rfl, fun _ _ h => h, fun _ h => h, ?_, fun _ _ h => .inl h⟩
      intro q' listed _
      rw [List.mem_singleton.1 listed, Knows, known, same]
    · cases h
  · next outside =>
    cases h
    refine ⟨rfl, fun _ _ h => h, fun _ h => h, ?_, fun _ _ h => .inl h⟩
    intro q' listed inside
    rw [List.mem_singleton.1 listed] at inside
    rw [List.getElem?_eq_none_iff] at outside
    omega

theorem reachAll_extends {after : Nat} {qs : List Nat} {s s' : StackSearch}
    (h : s.reachAll after qs = .ok s') : Extends after qs s s' := by
  induction qs generalizing s with
  | nil =>
    cases h
    exact extends_refl after _
  | cons q qs ih =>
    unfold reachAll at h
    split at h
    · next first => exact (reach_extends first).trans (ih h)
    · cases h

section Search

variable {b : Body} {returnsValue : Bool} {flow : List (List Nat)}

/-- A position that the search is done with: its instruction fits and what may follow is known. -/
def Settled (b : Body) (returnsValue : Bool) (flow : List (List Nat)) (s : StackSearch)
    (p n : Nat) : Prop :=
  ∃ l, b.lines[p]? = some l ∧ l.2.Fits returnsValue n ∧
    ∀ q ∈ flow[p]?.getD [], q < b.length → s.Knows q (l.2.depthAfter returnsValue n)

/-- Every position known is settled or still to be visited. -/
structure Sound (b : Body) (returnsValue : Bool) (flow : List (List Nat)) (s : StackSearch) :
    Prop where
  length : s.depths.length = b.length
  settled : ∀ p n, s.Knows p n → p ∈ s.pending ∨ Settled b returnsValue flow s p n

variable {s s' : StackSearch}

theorem visit_sound {p : Nat} {rest : List Nat}
    (sound : Sound b returnsValue flow s) (pending : s.pending = p :: rest)
    (h : visit b returnsValue flow { s with pending := rest } p = .ok s') :
    Sound b returnsValue flow s' ∧ ∀ q n, s.Knows q n → s'.Knows q n := by
  unfold visit at h
  split at h
  · next line before here known =>
    split at h
    · next after ok =>
      obtain ⟨fits, rfl⟩ := depthAfter_eq_ok.1 ok
      have grown := reachAll_extends h
      refine ⟨⟨grown.length.trans sound.length, fun q n knows => ?_⟩, grown.keeps⟩
      rcases grown.fresh q n knows with old | ⟨_, _, waiting⟩
      · by_cases same : q = p
        · subst same
          have depth : n = before := Knows.unique old known
          subst depth
          refine .inr ⟨_, here, fits, fun q' listed inside => ?_⟩
          exact grown.reached q' listed (sound.length.symm ▸ inside)
        · rcases sound.settled q n old with waiting | ⟨l, line', fits', next'⟩
          · rw [pending] at waiting
            have later : q ∈ rest := by
              rcases List.mem_cons.1 waiting with eq | later
              · exact absurd eq same
              · exact later
            exact .inl (grown.waits q later)
          · exact .inr ⟨l, line', fits', fun q' listed inside =>
              grown.keeps q' _ (next' q' listed inside)⟩
      · exact .inl waiting
    · cases h
  · next stuck =>
    cases h
    refine ⟨⟨sound.length, fun q n knows => ?_⟩, fun _ _ known => known⟩
    rcases sound.settled q n knows with waiting | settled
    · rw [pending] at waiting
      rcases List.mem_cons.1 waiting with rfl | later
      · have inside : q < b.lines.length := by
          have bound := knows.inside
          rw [sound.length] at bound
          exact bound
        exact absurd knows (stuck _ _ n (List.getElem?_eq_getElem inside))
      · exact .inl later
    · exact .inr settled

theorem run_sound (sound : Sound b returnsValue flow s)
    (h : run b returnsValue flow s = .ok s') :
    Sound b returnsValue flow s' ∧ s'.pending = [] ∧ ∀ q n, s.Knows q n → s'.Knows q n := by
  induction s using run.induct b returnsValue flow with
  | case1 s done =>
    unfold run at h
    split at h
    · cases h
      exact ⟨sound, done, fun _ _ known => known⟩
    · next pending => rw [done] at pending; cases pending
  | case2 s p rest pending s₁ visited _ ih =>
    have step := visit_sound sound pending visited
    have rest := ih step.1 (by
      rw [run] at h
      split at h
      · next done => rw [pending] at done; cases done
      · next p' rest' pending' =>
        rw [pending] at pending'
        cases pending'
        split at h
        · next s₂ visited' =>
          rw [visited] at visited'
          cases visited'
          exact h
        · cases h)
    exact ⟨rest.1, rest.2.1, fun q n known => rest.2.2 q n (step.2 q n known)⟩
  | case3 s p rest pending e failed =>
    rw [run] at h
    split at h
    · next done => rw [pending] at done; cases done
    · next p' rest' pending' =>
      rw [pending] at pending'
      cases pending'
      split at h
      · next s₂ visited' => rw [failed] at visited'; cases visited'
      · cases h

/-- No depth that the search knows differs from the depth of a map. -/
def Below (d : Nat → Option Nat) (s : StackSearch) : Prop := ∀ p n, s.Knows p n → d p = some n

/-- A map of depths by position that agrees along a flow. -/
def Consistent (b : Body) (returnsValue : Bool) (flow : List (List Nat)) (d : Nat → Option Nat) :
    Prop :=
  ∀ p l n, b.lines[p]? = some l → d p = some n → l.2.Fits returnsValue n ∧
    ∀ q ∈ flow[p]?.getD [], d q = some (l.2.depthAfter returnsValue n)

variable {d : Nat → Option Nat}

theorem Below.extends {after : Nat} {qs : List Nat} (below : Below d s)
    (agree : ∀ q ∈ qs, d q = some after) (grown : Extends after qs s s') : Below d s' := by
  intro p n known
  rcases grown.fresh p n known with old | ⟨listed, rfl, _⟩
  · exact below p n old
  · exact agree p listed

theorem reachAll_isOk {after : Nat} {qs : List Nat} (below : Below d s)
    (agree : ∀ q ∈ qs, d q = some after) : ∃ s', s.reachAll after qs = .ok s' := by
  induction qs generalizing s with
  | nil => exact ⟨s, rfl⟩
  | cons q qs ih =>
    have first : ∃ s₁, s.reach after q = .ok s₁ := by
      unfold reach
      split
      · exact ⟨_, rfl⟩
      · next seen known =>
        have same : seen = after := by
          have old := below q seen known
          rw [agree q List.mem_cons_self] at old
          exact (Option.some.inj old).symm
        rw [if_pos same]
        exact ⟨_, rfl⟩
      · exact ⟨_, rfl⟩
    obtain ⟨s₁, reached⟩ := first
    have below' := below.extends (fun q' listed => by
      rw [List.mem_singleton.1 listed]
      exact agree q List.mem_cons_self) (reach_extends reached)
    unfold reachAll
    rw [reached]
    exact ih below' fun q' listed => agree q' (List.mem_cons_of_mem q listed)

theorem visit_isOk {p : Nat} (consistent : Consistent b returnsValue flow d)
    (below : Below d s) : ∃ s', visit b returnsValue flow s p = .ok s' ∧ Below d s' := by
  unfold visit
  split
  · next line before here known =>
    obtain ⟨fits, agree⟩ := consistent p _ before here (below p before known)
    rw [depthAfter_eq_ok.2 ⟨fits, rfl⟩]
    dsimp only
    have below' : Below d { s with
        deepest := max s.deepest (max before (line.depthAfter returnsValue before)) } := below
    obtain ⟨s', reached⟩ := reachAll_isOk below' agree
    exact ⟨s', reached, below'.extends agree (reachAll_extends reached)⟩
  · exact ⟨s, rfl, below⟩

theorem run_isOk (consistent : Consistent b returnsValue flow d) (below : Below d s) :
    ∃ s', run b returnsValue flow s = .ok s' := by
  induction s using run.induct b returnsValue flow with
  | case1 s done =>
    unfold run
    split
    · exact ⟨_, rfl⟩
    · next pending => rw [done] at pending; cases pending
  | case2 s p rest pending s₁ visited _ ih =>
    obtain ⟨s₂, visited', below'⟩ :=
      visit_isOk (s := { s with pending := rest }) (p := p) consistent below
    rw [visited] at visited'
    cases visited'
    obtain ⟨s', ok⟩ := ih below'
    refine ⟨s', ?_⟩
    rw [run]
    split
    · next done => rw [pending] at done; cases done
    · next p' rest' pending' =>
      rw [pending] at pending'
      cases pending'
      split
      · next s₂ visited' =>
        rw [visited] at visited'
        cases visited'
        exact ok
      · next failed => rw [visited] at failed; cases failed
  | case3 s p rest pending e failed =>
    obtain ⟨s', visited, _⟩ :=
      visit_isOk (s := { s with pending := rest }) (p := p) consistent below
    rw [failed] at visited
    cases visited

end Search

theorem start_knows {b : Body} {p n : Nat} (nonempty : 0 < b.length) :
    (start b).Knows p n ↔ p = 0 ∧ n = 0 := by
  unfold Knows start
  by_cases first : p = 0
  · subst first
    simp [nonempty, eq_comm]
  · rw [List.getElem?_set_ne (Ne.symm first)]
    simp [first, List.getElem?_replicate]

theorem start_sound {b : Body} {returnsValue : Bool} {flow : List (List Nat)}
    (nonempty : 0 < b.length) : Sound b returnsValue flow (start b) where
  length := by simp [start]
  settled p n known := by
    obtain ⟨rfl, _⟩ := (start_knows nonempty).1 known
    exact .inl List.mem_cons_self

end StackSearch

namespace Body

open StackSearch

variable {b : Body} {returnsValue : Bool}

/-- The depths of a search as a map from handles. -/
def searched (b : Body) (s : StackSearch) (h : Handle) : Option Nat :=
  (b.position? h).bind fun p => s.depths[p]?.join

theorem searched_eq_some {s : StackSearch} {l : Handle × Instr} {p n : Nat}
    (line : b.lines[p]? = some l) : b.searched s l.1 = some n ↔ s.Knows p n := by
  have found : b.position? l.1 = some p := position?_eq_some.2 ⟨l.2, line⟩
  simp [searched, found, Knows, Option.join_eq_some_iff]

theorem depthMap_of_sound {flow : List (List Nat)} {s : StackSearch} (flows : b.flow = .ok flow)
    (nonempty : 0 < b.length) (sound : Sound b returnsValue flow s) (done : s.pending = [])
    (first : s.Knows 0 0) : b.DepthMap returnsValue (b.searched s) := by
  have settled : ∀ {p : Nat} {l : Handle × Instr} {n : Nat}, b.lines[p]? = some l → b.searched s l.1 = some n →
      l.2.Fits returnsValue n ∧
        ∀ q ∈ flow[p]?.getD [], q < b.length → s.Knows q (l.2.depthAfter returnsValue n) := by
    intro p l n line known
    rcases sound.settled p n ((searched_eq_some line).1 known) with waiting | ⟨l', line', rest⟩
    · rw [done] at waiting
      cases waiting
    · rw [line] at line'
      cases line'
      exact rest
  refine ⟨?_, ?_, ?_, ?_⟩
  · have line : b.lines[0]? = some b.lines[0] := List.getElem?_eq_getElem nonempty
    exact ⟨b.lines[0], by rw [List.head?_eq_getElem?, line], (searched_eq_some line).2 first⟩
  · intro l listed n known
    obtain ⟨p, line⟩ := List.mem_iff_getElem?.1 listed
    exact (settled line known).1
  · intro l listed t target n known
    obtain ⟨p, line⟩ := List.mem_iff_getElem?.1 listed
    obtain ⟨qs, edges, ok⟩ := flow_get flows line
    obtain ⟨inside, _, successors⟩ := successorsAt_eq_ok ok
    obtain ⟨q, there⟩ := position?_isSome.2 (inside t target)
    obtain ⟨i, line'⟩ := position?_eq_some.1 there
    have bound := (List.getElem?_eq_some_iff.1 line').1
    refine (searched_eq_some (l := (t, i)) line').2 ((settled line known).2 q ?_ bound)
    rw [edges]
    exact (successors q).2 (.inl (by rw [target]; exact there))
  · rw [List.isChain_iff_getElem]
    intro p inside falls n known
    have line := List.getElem?_eq_getElem (Nat.lt_of_succ_lt inside)
    have line' := List.getElem?_eq_getElem inside
    obtain ⟨qs, edges, ok⟩ := flow_get flows line
    refine (searched_eq_some line').2 ((settled line known).2 (p + 1) ?_ inside)
    rw [edges]
    exact ((successorsAt_eq_ok ok).2.2 (p + 1)).2 (.inr ⟨falls, rfl⟩)

theorem DepthMap.consistent {depth : Handle → Option Nat} {flow : List (List Nat)}
    (map : b.DepthMap returnsValue depth) (flows : b.flow = .ok flow) :
    Consistent b returnsValue flow fun p => b.lines[p]?.bind fun l => depth l.1 := by
  intro p l n line known
  simp only [line, Option.bind_some] at known
  have listed := List.mem_of_getElem? line
  refine ⟨map.fits l listed n known, fun q edge => ?_⟩
  obtain ⟨qs, edges, ok⟩ := flow_get flows line
  rw [edges] at edge
  rcases ((successorsAt_eq_ok ok).2.2 q).1 edge with jump | ⟨falls, rfl⟩
  · obtain ⟨t, target, there⟩ := Option.bind_eq_some_iff.1 jump
    obtain ⟨i, line'⟩ := position?_eq_some.1 there
    simp only [line', Option.bind_some]
    exact map.jumps l listed t target n known
  · have bound : p + 1 < b.lines.length := (successorsAt_eq_ok ok).2.1 falls
    have next := (List.isChain_iff_getElem.1 map.follows) p bound
    obtain ⟨inside, here⟩ := List.getElem?_eq_some_iff.1 line
    rw [here] at next
    simp only [List.getElem?_eq_getElem bound, Option.bind_some]
    exact next falls n known

/-- The check of the stack decides whether a body is closed and has a depth map. -/
theorem verifyStack_isOk_iff : (∃ m, b.verifyStack returnsValue = .ok m) ↔
    b.WellStacked returnsValue := by
  unfold verifyStack
  constructor
  · rintro ⟨m, ok⟩
    split at ok
    · cases ok
    · next full =>
      have nonempty : 0 < b.length := by
        simpa [isEmpty, length, List.length_pos_iff] using full
      split at ok
      · next flow flows =>
        cases search : StackSearch.run b returnsValue flow (StackSearch.start b) with
        | error e => rw [search] at ok; cases ok
        | ok s =>
          obtain ⟨sound, done, keeps⟩ := run_sound (start_sound nonempty) search
          have first := keeps 0 0 ((start_knows nonempty).2 ⟨rfl, rfl⟩)
          exact ⟨closed_of_flow flows, _,
            depthMap_of_sound flows nonempty sound done first⟩
      · cases ok
  · rintro ⟨closed, depth, map⟩
    obtain ⟨l, first, zero⟩ := map.entry
    have nonempty : 0 < b.length := List.length_pos_of_mem (List.mem_of_head? first)
    have full : b.isEmpty = false := by
      simpa [isEmpty, length, List.length_pos_iff] using nonempty
    obtain ⟨flow, flows⟩ := flow_of_closed closed
    obtain ⟨s, ok⟩ := run_isOk (s := StackSearch.start b) (map.consistent flows)
      fun p n known => by
        obtain ⟨rfl, rfl⟩ := (start_knows nonempty).1 known
        rw [← List.head?_eq_getElem?, first]
        exact zero
    simp only [full, flows, ok]
    exact ⟨_, rfl⟩

end Body

end ReleaseWeaver
