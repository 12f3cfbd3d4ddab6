import Mathlib.Order.Bounds.Basic
import ReleaseWeaver.Proofs.Code.StackTyping

/-
  The answer of the stack check. What control may reach from the first line has at most one
  assignment of depths that agrees along the flow, and the check answers with the greatest depth
  of that assignment, before an instruction or after it. Main statement: that is all the check
  says, and a search that visits the pending positions, or goes through the successors of one,
  in another order says the same.
-/

namespace ReleaseWeaver

namespace Body

variable {b : Body} {r : Bool} {m : Nat} {depth : Handle → Option Nat} {l l' : Handle × Instr}

/-! ## What control may reach -/

/-- Control may go from one line to the other. -/
def Follows (b : Body) (l l' : Handle × Instr) : Prop :=
  l.2.target? = some l'.1 ∨ l.2.fallsThrough = true ∧ b.next? l.1 = some l'.1

/-- The lines that control may reach from the first one. -/
inductive Reaches (b : Body) : Handle × Instr → Prop
  | first {l : Handle × Instr} : b.lines.head? = some l → b.Reaches l
  | next {l l' : Handle × Instr} : b.Reaches l → l' ∈ b.lines → b.Follows l l' → b.Reaches l'

abbrev Reached (b : Body) : Type := {l : Handle × Instr // b.Reaches l}

/-- Depths of the stack before each line that control may reach. -/
structure Depths (b : Body) (returnsValue : Bool) (d : b.Reached → Nat) : Prop where
  first : ∀ l : b.Reached, b.lines.head? = some l.1 → d l = 0
  enough : ∀ l : b.Reached, l.1.2.pops returnsValue ≤ d l
  exits : ∀ l : b.Reached, l.1.2 = .ret → d l = returnsValue.toNat
  next : ∀ l l' : b.Reached, b.Follows l.1 l'.1 →
    d l' = d l - l.1.2.pops returnsValue + l.1.2.pushes

/-- The depths before and after each line that control may reach. -/
def levels (b : Body) (returnsValue : Bool) (d : b.Reached → Nat) : Set Nat :=
  {k | ∃ l : b.Reached, k = d l ∨ k = d l - l.1.2.pops returnsValue + l.1.2.pushes}

theorem Reaches.mem_lines (reached : b.Reaches l) : l ∈ b.lines := by
  cases reached with
  | first head => exact List.mem_of_head? head
  | next _ listed _ => exact listed

theorem next?_eq_some (listed : l ∈ b.lines) (listed' : l' ∈ b.lines) :
    b.next? l.1 = some l'.1 ↔ ∃ p : Nat, b.lines[p]? = some l ∧ b.lines[p + 1]? = some l' := by
  unfold next? at?
  constructor
  · intro next
    obtain ⟨p, found, after⟩ := Option.bind_eq_some_iff.1 next
    obtain ⟨i, here⟩ := position?_eq_some.1 found
    have same : l = (l.1, i) := line_unique listed (List.mem_of_getElem? here) rfl
    obtain ⟨l'', there, name⟩ : ∃ l'', b.lines[p + 1]? = some l'' ∧ l''.1 = l'.1 := by
      simpa [handles] using after
    have same' : l'' = l' := line_unique (List.mem_of_getElem? there) listed' name
    exact ⟨p, by rw [here, ← same], by rw [there, same']⟩
  · rintro ⟨p, here, there⟩
    have found : b.position? l.1 = some p := position?_eq_some.2 ⟨l.2, here⟩
    simp [found, handles, there]

/-- The flow of a body leads from a line to those that may follow it. -/
theorem mem_flow {flow : List (List Nat)} (flows : b.flow = .ok flow) {p q : Nat}
    (here : b.lines[p]? = some l) (there : b.lines[q]? = some l') :
    q ∈ flow[p]?.getD [] ↔ b.Follows l l' := by
  obtain ⟨qs, edges, ok⟩ := flow_get flows here
  rw [edges, Option.getD_some, (successorsAt_eq_ok ok).2.2 q]
  refine or_congr ?_ (and_congr_right fun _ => ?_)
  · rw [Option.bind_eq_some_iff]
    constructor
    · rintro ⟨t, target, found⟩
      obtain ⟨i, line⟩ := position?_eq_some.1 found
      rw [there] at line
      cases line
      exact target
    · intro target
      exact ⟨l'.1, target, position?_eq_some.2 ⟨l'.2, there⟩⟩
  · rw [next?_eq_some (List.mem_of_getElem? here) (List.mem_of_getElem? there)]
    constructor
    · rintro rfl
      exact ⟨p, here, there⟩
    · rintro ⟨p', here', there'⟩
      have same : p' = p := by
        have found := position?_eq_some.2 ⟨l.2, here⟩
        have found' := position?_eq_some.2 ⟨l.2, here'⟩
        rw [found] at found'
        exact (Option.some.inj found').symm
      subst same
      have found := position?_eq_some.2 ⟨l'.2, there⟩
      have found' := position?_eq_some.2 ⟨l'.2, there'⟩
      rw [found] at found'
      exact Option.some.inj found'

/-! ## Depth maps and what control reaches -/

/-- A depth map gives a line that may follow the depth that the one before it leaves. -/
theorem DepthMap.next (map : b.DepthMap r depth) (listed : l ∈ b.lines) (listed' : l' ∈ b.lines)
    (follows : b.Follows l l') {n : Nat} (known : depth l.1 = some n) :
    depth l'.1 = some (l.2.depthAfter r n) := by
  obtain target | ⟨falls, next⟩ := follows
  · exact map.jumps l listed l'.1 target n known
  · obtain ⟨p, here, there⟩ := (next?_eq_some listed listed').1 next
    obtain ⟨inside, eq⟩ := List.getElem?_eq_some_iff.1 here
    obtain ⟨inside', eq'⟩ := List.getElem?_eq_some_iff.1 there
    have step := (List.isChain_iff_getElem.1 map.follows) p inside'
    rw [eq, eq'] at step
    exact step falls n known

/-- Two depth maps agree on what control reaches. -/
theorem DepthMap.agree {depth' : Handle → Option Nat} (map : b.DepthMap r depth)
    (map' : b.DepthMap r depth') (reached : b.Reaches l) :
    ∃ n, depth l.1 = some n ∧ depth' l.1 = some n := by
  induction reached with
  | first head =>
    obtain ⟨l₀, first, zero⟩ := map.entry
    obtain ⟨l₁, first', zero'⟩ := map'.entry
    rw [head] at first first'
    cases first
    cases first'
    exact ⟨0, zero, zero'⟩
  | next before listed follows ih =>
    obtain ⟨n, known, known'⟩ := ih
    exact ⟨_, map.next before.mem_lines listed follows known,
      map'.next before.mem_lines listed follows known'⟩

/-- A depth map of what control reaches and nothing else, with its greatest depth. -/
structure Measured (b : Body) (returnsValue : Bool) (m : Nat) (depth : Handle → Option Nat) :
    Prop where
  map : b.DepthMap returnsValue depth
  reached : ∀ l ∈ b.lines, ∀ n, depth l.1 = some n → b.Reaches l
  bound : ∀ l ∈ b.lines, ∀ n, depth l.1 = some n →
    n ≤ m ∧ l.2.depthAfter returnsValue n ≤ m
  attained : ∃ l ∈ b.lines, ∃ n, depth l.1 = some n ∧
    (m = n ∨ m = l.2.depthAfter returnsValue n)

end Body

/-! ## Searches in any order -/

namespace StackSearch

/-- One visit, of any of the pending positions, that goes through its successors in any order. -/
def Visits (b : Body) (returnsValue : Bool) (flow : List (List Nat)) (s : StackSearch)
    (found : Except FlowError StackSearch) : Prop :=
  ∃ p rest flow', s.pending.Perm (p :: rest) ∧ List.Forall₂ List.Perm flow flow' ∧
    visit b returnsValue flow' { s with pending := rest } p = found

/-- What a search may come to by such visits. -/
inductive Explores (b : Body) (returnsValue : Bool) (flow : List (List Nat)) :
    StackSearch → Except FlowError StackSearch → Prop
  | done {s : StackSearch} : s.pending = [] → Explores b returnsValue flow s (.ok s)
  | visited {s s' : StackSearch} {found : Except FlowError StackSearch} :
      Visits b returnsValue flow s (.ok s') → Explores b returnsValue flow s' found →
      Explores b returnsValue flow s found
  | failed {s : StackSearch} {e : FlowError} : Visits b returnsValue flow s (.error e) →
      Explores b returnsValue flow s (.error e)

section Orders

variable {b : Body} {r : Bool} {flow flow' : List (List Nat)} {s s' : StackSearch}
  {d : Nat → Option Nat}

theorem forall₂_perm_refl (flow : List (List Nat)) : List.Forall₂ List.Perm flow flow :=
  List.forall₂_same.2 fun _ _ => List.Perm.refl _

theorem mem_reordered (same : List.Forall₂ List.Perm flow flow') (p q : Nat) :
    q ∈ flow'[p]?.getD [] ↔ q ∈ flow[p]?.getD [] := by
  induction same generalizing p with
  | nil => rfl
  | cons perm _ ih =>
    cases p with
    | zero => exact perm.mem_iff.symm
    | succ p => exact ih p

/-- The latest pending position first, its successors as the flow lists them: one of the orders. -/
theorem explores_run (s : StackSearch) : Explores b r flow s (run b r flow s) := by
  induction s using run.induct b r flow with
  | case1 s done =>
    have eq : run b r flow s = .ok s := by
      unfold run
      split
      · rfl
      · next pending => rw [done] at pending; cases pending
    rw [eq]
    exact .done done
  | case2 s p rest pending s₁ visited _ ih =>
    have eq : run b r flow s = run b r flow s₁ := by
      rw [run]
      split
      · next done => rw [pending] at done; cases done
      · next p' rest' pending' =>
        rw [pending] at pending'
        cases pending'
        split
        · next s₂ visited' =>
          rw [visited] at visited'
          cases visited'
          rfl
        · next failed => rw [visited] at failed; cases failed
    rw [eq]
    exact .visited ⟨p, rest, flow, .of_eq pending, forall₂_perm_refl flow, visited⟩ ih
  | case3 s p rest pending e failed =>
    have eq : run b r flow s = .error e := by
      rw [run]
      split
      · next done => rw [pending] at done; cases done
      · next p' rest' pending' =>
        rw [pending] at pending'
        cases pending'
        split
        · next s₂ visited' => rw [failed] at visited'; cases visited'
        · next failed' =>
          rw [failed] at failed'
          cases failed'
          rfl
    rw [eq]
    exact .failed ⟨p, rest, flow, .of_eq pending, forall₂_perm_refl flow, failed⟩

/-- Every search comes to an end. -/
theorem wellFounded_visits (b : Body) (r : Bool) (flow : List (List Nat)) :
    WellFounded fun s' s => Visits b r flow s (.ok s') := by
  refine Subrelation.wf (r := fun s' s => remaining s' < remaining s) ?_ (measure remaining).wf
  rintro s' s ⟨p, rest, flow', waiting, _, visited⟩
  have bound := visit_remaining visited
  have count := waiting.length_eq
  simp only [remaining, List.length_cons] at bound count ⊢
  omega

theorem Sound.reorder (sound : Sound b r flow s) {pending : List Nat}
    (same : List.Forall₂ List.Perm flow flow') (waiting : s.pending.Perm pending) :
    Sound b r flow' { s with pending := pending } where
  length := sound.length
  settled p n known := by
    obtain later | ⟨l, line, fits, next⟩ := sound.settled p n known
    · exact .inl (waiting.mem_iff.1 later)
    · exact .inr ⟨l, line, fits, fun q listed => next q ((mem_reordered same p q).1 listed)⟩

/-- A search has seen what control reaches, and its greatest depth is that of what it has
visited. -/
structure Tallied (b : Body) (returnsValue : Bool) (s : StackSearch) : Prop where
  reached : ∀ p n l, s.Knows p n → b.lines[p]? = some l → b.Reaches l
  bound : ∀ p n l, s.Knows p n → b.lines[p]? = some l → p ∈ s.pending ∨
    n ≤ s.deepest ∧ l.2.depthAfter returnsValue n ≤ s.deepest
  attained : ∃ p n l, s.Knows p n ∧ b.lines[p]? = some l ∧
    (s.deepest = n ∨ s.deepest = l.2.depthAfter returnsValue n)

theorem start_tallied (nonempty : 0 < b.length) : Tallied b r (start b) := by
  have line : b.lines[0]? = some b.lines[0] := List.getElem?_eq_getElem nonempty
  refine ⟨fun p n l known here => ?_, fun p n l known here => ?_, 0, 0, _,
    (start_knows nonempty).2 ⟨rfl, rfl⟩, line, .inl rfl⟩
  · obtain ⟨rfl, _⟩ := (start_knows nonempty).1 known
    exact .first (by rw [List.head?_eq_getElem?, here])
  · obtain ⟨rfl, _⟩ := (start_knows nonempty).1 known
    exact .inl List.mem_cons_self

theorem reachAll_deepest {after : Nat} {qs : List Nat} (h : s.reachAll after qs = .ok s') :
    s'.deepest = s.deepest := by
  induction qs generalizing s with
  | nil =>
    cases h
    rfl
  | cons q qs ih =>
    unfold reachAll at h
    split at h
    · next s₁ first =>
      have kept : s₁.deepest = s.deepest := by
        unfold reach at first
        split at first
        · cases first
          rfl
        · split at first
          · cases first
            rfl
          · cases first
        · cases first
          rfl
      rw [ih h, kept]
    · cases h

theorem Visits.tallied (flows : b.flow = .ok flow) (visits : Visits b r flow s (.ok s'))
    (tallied : Tallied b r s) : Tallied b r s' := by
  obtain ⟨p, rest, flow', waiting, same, h⟩ := visits
  unfold visit at h
  split at h
  · next name i before here known =>
    split at h
    · next after ok =>
      obtain ⟨_, rfl⟩ := depthAfter_eq_ok.1 ok
      have grown := reachAll_extends h
      have deepest : s'.deepest = max s.deepest (max before (i.depthAfter r before)) :=
        reachAll_deepest h
      refine ⟨fun q n l knows line => ?_, fun q n l knows line => ?_, ?_⟩
      · obtain old | ⟨edge, _, _⟩ := grown.fresh q n knows
        · exact tallied.reached q n l old line
        · exact .next (tallied.reached p before _ known here) (List.mem_of_getElem? line)
            ((Body.mem_flow flows here line).1 ((mem_reordered same p q).1 edge))
      · obtain old | ⟨_, _, later⟩ := grown.fresh q n knows
        · obtain later | bounds := tallied.bound q n l old line
          · obtain rfl | later := List.mem_cons.1 (waiting.mem_iff.1 later)
            · rw [here] at line
              cases line
              have depth : n = before := Knows.unique old known
              subst depth
              exact .inr ⟨by omega, by dsimp only; omega⟩
            · exact .inl (grown.waits q later)
          · exact .inr (by omega)
        · exact .inl later
      · obtain ⟨q, n, l, knows, line, top⟩ := tallied.attained
        by_cases higher : s.deepest ≤ max before (i.depthAfter r before)
        · exact ⟨p, before, _, grown.keeps p before known, here, by dsimp only; omega⟩
        · exact ⟨q, n, l, grown.keeps q n knows, line, by omega⟩
    · cases h
  · next stuck =>
    cases h
    refine ⟨tallied.reached, fun q n l knows line => ?_, tallied.attained⟩
    obtain later | bounds := tallied.bound q n l knows line
    · obtain rfl | later := List.mem_cons.1 (waiting.mem_iff.1 later)
      · exact absurd knows (stuck _ _ n line)
      · exact .inl later
    · exact .inr bounds

theorem Visits.sound (visits : Visits b r flow s (.ok s')) (sound : Sound b r flow s) :
    Sound b r flow s' ∧ ∀ p n, s.Knows p n → s'.Knows p n := by
  obtain ⟨p, rest, flow', waiting, same, visited⟩ := visits
  have step := visit_sound (s := { s with pending := p :: rest }) (sound.reorder same waiting)
    rfl visited
  have back : List.Forall₂ List.Perm flow' flow := (same.imp fun _ _ => List.Perm.symm).flip
  exact ⟨step.1.reorder back (.refl _), step.2⟩

/-- A search that comes to an end has settled what it knows. -/
theorem Explores.ok {found : Except FlowError StackSearch} (flows : b.flow = .ok flow)
    (explores : Explores b r flow s found) (eq : found = .ok s') (sound : Sound b r flow s)
    (tallied : Tallied b r s) :
    Sound b r flow s' ∧ Tallied b r s' ∧ s'.pending = [] ∧ ∀ p n, s.Knows p n → s'.Knows p n := by
  induction explores with
  | done none_left =>
    cases eq
    exact ⟨sound, tallied, none_left, fun _ _ known => known⟩
  | visited visits _ ih =>
    have step := visits.sound sound
    obtain ⟨sound', tallied', done, keeps⟩ := ih eq step.1 (visits.tallied flows tallied)
    exact ⟨sound', tallied', done, fun q n known => keeps q n (step.2 q n known)⟩
  | failed _ => cases eq

/-- No visit fails where there are depths that agree along the flow. -/
theorem Visits.isOk {found : Except FlowError StackSearch} (visits : Visits b r flow s found)
    (consistent : Consistent b r flow d) (below : Below d s) :
    ∃ s', found = .ok s' ∧ Below d s' := by
  obtain ⟨p, rest, flow', _, same, visited⟩ := visits
  have reordered : Consistent b r flow' d := by
    intro p l n line known
    obtain ⟨fits, agree⟩ := consistent p l n line known
    exact ⟨fits, fun q edge => agree q ((mem_reordered same p q).1 edge)⟩
  obtain ⟨s', visited', below'⟩ :=
    visit_isOk (s := { s with pending := rest }) (p := p) reordered below
  exact ⟨s', visited.symm.trans visited', below'⟩

theorem Explores.isOk {found : Except FlowError StackSearch}
    (explores : Explores b r flow s found) (consistent : Consistent b r flow d)
    (below : Below d s) : ∃ s', found = .ok s' := by
  induction explores with
  | done _ => exact ⟨_, rfl⟩
  | visited visits _ ih =>
    obtain ⟨s', same, below'⟩ := visits.isOk consistent below
    cases same
    exact ih below'
  | failed visits =>
    obtain ⟨s', same, _⟩ := visits.isOk consistent below
    cases same

end Orders

end StackSearch

namespace Body

open StackSearch

variable {b : Body} {r : Bool} {m : Nat} {depth : Handle → Option Nat}
  {answer : Except FlowError Nat}

/-- An answer of the stack check when its search may go in any order. -/
def MayAnswer (b : Body) (returnsValue : Bool) (answer : Except FlowError Nat) : Prop :=
  if b.isEmpty then answer = .error .fallsThroughEnd
  else match b.flow with
    | .ok flow => ∃ found, Explores b returnsValue flow (start b) found ∧
      answer = found.map StackSearch.deepest
    | .error e => answer = .error e

theorem mayAnswer_verifyStack (b : Body) (r : Bool) : b.MayAnswer r (b.verifyStack r) := by
  unfold MayAnswer verifyStack
  split
  · rfl
  · cases b.flow with
    | ok flow => exact ⟨_, explores_run _, rfl⟩
    | error e => rfl

/-- Any order finds the depths of what control reaches, and the greatest of them. -/
theorem MayAnswer.measured (may : b.MayAnswer r (.ok m)) :
    b.Closed ∧ ∃ depth, b.Measured r m depth := by
  unfold MayAnswer at may
  split at may
  · cases may
  · next full =>
    have nonempty : 0 < b.length := by
      simpa [isEmpty, length, List.length_pos_iff] using full
    split at may
    · next flow flows =>
      obtain ⟨found, explores, answered⟩ := may
      obtain ⟨s, rfl, rfl⟩ : ∃ s, found = .ok s ∧ m = s.deepest := by
        cases found with
        | error e => cases answered
        | ok s => cases answered; exact ⟨s, rfl, rfl⟩
      obtain ⟨sound, tallied, done, keeps⟩ :=
        explores.ok flows rfl (start_sound nonempty) (start_tallied nonempty)
      have first := keeps 0 0 ((start_knows nonempty).2 ⟨rfl, rfl⟩)
      refine ⟨closed_of_flow flows, b.searched s,
        depthMap_of_sound flows nonempty sound done first, fun l listed n known => ?_,
        fun l listed n known => ?_, ?_⟩
      · obtain ⟨p, line⟩ := List.mem_iff_getElem?.1 listed
        exact tallied.reached p n l ((searched_eq_some line).1 known) line
      · obtain ⟨p, line⟩ := List.mem_iff_getElem?.1 listed
        obtain waiting | bounds := tallied.bound p n l ((searched_eq_some line).1 known) line
        · rw [done] at waiting
          cases waiting
        · exact bounds
      · obtain ⟨p, n, l, known, line, top⟩ := tallied.attained
        exact ⟨l, List.mem_of_getElem? line, n, (searched_eq_some line).2 known, top⟩
    · cases may

/-- No order refuses a body that has depths. -/
theorem MayAnswer.isOk (may : b.MayAnswer r answer) (typed : b.WellStacked r) :
    ∃ m, answer = .ok m := by
  obtain ⟨closed, depth, map⟩ := typed
  obtain ⟨l, first, zero⟩ := map.entry
  have nonempty : 0 < b.length := List.length_pos_of_mem (List.mem_of_head? first)
  have full : b.isEmpty = false := by
    simpa [isEmpty, length, List.length_pos_iff] using nonempty
  obtain ⟨flow, flows⟩ := flow_of_closed closed
  simp only [MayAnswer, full, flows] at may
  obtain ⟨found, explores, rfl⟩ := may
  obtain ⟨s, rfl⟩ := explores.isOk (map.consistent flows) fun p n known => by
    obtain ⟨rfl, rfl⟩ := (start_knows nonempty).1 known
    rw [← List.head?_eq_getElem?, first]
    exact zero
  exact ⟨_, rfl⟩

/-- Two measurements of a body come to the same. -/
theorem Measured.unique {m' : Nat} {depth' : Handle → Option Nat} (measured : b.Measured r m depth)
    (measured' : b.Measured r m' depth') : m = m' := by
  have least {m m' : Nat} {depth depth' : Handle → Option Nat} (measured : b.Measured r m depth)
      (measured' : b.Measured r m' depth') : m ≤ m' := by
    obtain ⟨l, listed, n, known, top⟩ := measured.attained
    obtain ⟨n', known', other⟩ :=
      measured.map.agree measured'.map (measured.reached l listed n known)
    rw [known] at known'
    cases known'
    have bounds := measured'.bound l listed n other
    obtain rfl | rfl := top
    · exact bounds.1
    · exact bounds.2
  exact Nat.le_antisymm (least measured measured') (least measured' measured)

/-- The check answers with a depth exactly when it is the greatest of what control reaches. -/
theorem verifyStack_measured :
    b.verifyStack r = .ok m ↔ b.Closed ∧ ∃ depth, b.Measured r m depth := by
  constructor
  · intro ok
    exact MayAnswer.measured (ok ▸ mayAnswer_verifyStack b r)
  · rintro ⟨closed, depth, measured⟩
    obtain ⟨m', ok⟩ := verifyStack_isOk_iff.2 ⟨closed, depth, measured.map⟩
    obtain ⟨_, depth', measured'⟩ := MayAnswer.measured (ok ▸ mayAnswer_verifyStack b r)
    rw [ok, measured.unique measured']

/-! ## Depths of what control reaches -/

theorem Depths.fits {d : b.Reached → Nat} (depths : b.Depths r d) (l : b.Reached) :
    l.1.2.Fits r (d l) := by
  refine ⟨depths.enough l, fun exit => depths.exits l ?_⟩
  cases instr : l.1.2 <;> rw [instr] at exit <;> first | rfl | cases exit

/-- Depths of what control reaches are depths along the flow. -/
theorem Depths.unique {d d' : b.Reached → Nat} (depths : b.Depths r d)
    (depths' : b.Depths r d') : d = d' := by
  funext ⟨l, reached⟩
  induction reached with
  | first head => rw [depths.first ⟨_, .first head⟩ head, depths'.first ⟨_, .first head⟩ head]
  | @next l l' before listed follows ih =>
    rw [depths.next ⟨l, before⟩ ⟨l', before.next listed follows⟩ follows,
      depths'.next ⟨l, before⟩ ⟨l', before.next listed follows⟩ follows, ih]

/-- A measured map gives the depths of what control reaches. -/
theorem Measured.depths (measured : b.Measured r m depth) :
    ∃ d, b.Depths r d ∧ IsGreatest (b.levels r d) m := by
  have known (l : b.Reached) : ∃ n, depth l.1.1 = some n :=
    (measured.map.agree measured.map l.2).imp fun _ both => both.1
  choose d known using known
  refine ⟨d, ⟨fun l head => ?_, fun l => ?_, fun l exit => ?_, fun l l' follows => ?_⟩, ?_, ?_⟩
  · obtain ⟨l₀, first, zero⟩ := measured.map.entry
    rw [head] at first
    cases first
    rw [known l] at zero
    exact Option.some.inj zero
  · exact (measured.map.fits l.1 l.2.mem_lines (d l) (known l)).1
  · exact (measured.map.fits l.1 l.2.mem_lines (d l) (known l)).2 (by rw [exit]; rfl)
  · have next := measured.map.next l.2.mem_lines l'.2.mem_lines follows (known l)
    rw [known l'] at next
    exact Option.some.inj next
  · obtain ⟨l, listed, n, here, top⟩ := measured.attained
    refine ⟨⟨l, measured.reached l listed n here⟩, ?_⟩
    have same : d ⟨l, measured.reached l listed n here⟩ = n := by
      have there := known ⟨l, measured.reached l listed n here⟩
      rw [here] at there
      exact (Option.some.inj there).symm
    rw [same]
    exact top
  · rintro k ⟨l, top⟩
    have bounds := measured.bound l.1 l.2.mem_lines (d l) (known l)
    obtain rfl | rfl := top
    · exact bounds.1
    · exact bounds.2

/-- Depths of what control reaches make a depth map. -/
theorem Depths.wellStacked {d : b.Reached → Nat} (depths : b.Depths r d) (full : b.lines ≠ [])
    (closed : b.Closed) : b.WellStacked r := by
  classical
  let depth (h : Handle) : Option Nat :=
    if known : ∃ l : b.Reached, l.1.1 = h then some (d known.choose) else none
  have at_reached (l : b.Reached) : depth l.1.1 = some (d l) := by
    have known : ∃ l' : b.Reached, l'.1.1 = l.1.1 := ⟨l, rfl⟩
    have same : known.choose = l :=
      Subtype.ext (line_unique known.choose.2.mem_lines l.2.mem_lines known.choose_spec)
    simp only [depth, dif_pos known, same]
  have only_reached {l : Handle × Instr} {n : Nat} (listed : l ∈ b.lines)
      (here : depth l.1 = some n) : ∃ reached : b.Reaches l, n = d ⟨l, reached⟩ := by
    simp only [depth] at here
    split at here
    · next known =>
      have same := line_unique known.choose.2.mem_lines listed known.choose_spec
      have reached : b.Reaches l := same ▸ known.choose.2
      have eq : known.choose = ⟨l, reached⟩ := Subtype.ext same
      rw [eq] at here
      exact ⟨reached, (Option.some.inj here).symm⟩
    · cases here
  have step {l l' : Handle × Instr} {n : Nat} (listed : l ∈ b.lines) (listed' : l' ∈ b.lines)
      (follows : b.Follows l l') (here : depth l.1 = some n) :
      depth l'.1 = some (l.2.depthAfter r n) := by
    obtain ⟨reached, rfl⟩ := only_reached listed here
    have reached' := reached.next listed' follows
    rw [at_reached ⟨l', reached'⟩, depths.next ⟨l, reached⟩ ⟨l', reached'⟩ follows]
    rfl
  refine ⟨closed, depth, ⟨?_, ?_, ?_, ?_⟩⟩
  · obtain ⟨l, rest, eq⟩ := List.exists_cons_of_ne_nil full
    have head : b.lines.head? = some l := by rw [eq]; rfl
    exact ⟨l, head, by rw [at_reached ⟨l, .first head⟩, depths.first ⟨l, .first head⟩ head]⟩
  · intro l listed n here
    obtain ⟨reached, rfl⟩ := only_reached listed here
    exact depths.fits ⟨l, reached⟩
  · intro l listed t target n here
    obtain ⟨l', listed', rfl⟩ := List.mem_map.1 (closed.targets l listed t target)
    exact step listed listed' (.inl target) here
  · rw [List.isChain_iff_getElem]
    intro p inside falls n here
    have line := List.getElem?_eq_getElem (Nat.lt_of_succ_lt inside)
    have line' := List.getElem?_eq_getElem inside
    have next := (next?_eq_some (List.mem_of_getElem? line) (List.mem_of_getElem? line')).2
      ⟨p, line, line'⟩
    exact step (List.mem_of_getElem? line) (List.mem_of_getElem? line') (.inr ⟨falls, next⟩) here

/-- The check accepts a body exactly when it has an instruction, its branches stay inside, its
last instruction does not fall through and what control reaches has depths; these are then the
only ones, and the answer is the greatest of them. In any other order the search ends, too, and
answers the same. -/
theorem verifyStack_decides_depths (b : Body) (r : Bool) :
    (∀ m, b.verifyStack r = .ok m ↔ b.lines ≠ [] ∧ b.Closed ∧
      ∃ d, b.Depths r d ∧ IsGreatest (b.levels r d) m) ∧
    (∀ d d', b.Depths r d → b.Depths r d' → d = d') ∧
    (∀ flow, WellFounded fun s' s => StackSearch.Visits b r flow s (.ok s')) ∧
    b.MayAnswer r (b.verifyStack r) ∧
    ∀ answer, b.MayAnswer r answer → ∀ m, answer = .ok m ↔ b.verifyStack r = .ok m := by
  refine ⟨fun m => ⟨fun ok => ?_, fun ⟨full, closed, d, depths, greatest⟩ => ?_⟩,
    fun d d' depths depths' => depths.unique depths', wellFounded_visits b r,
    mayAnswer_verifyStack b r, fun answer may m => ⟨fun ok => ?_, fun ok => ?_⟩⟩
  · obtain ⟨closed, depth, measured⟩ := verifyStack_measured.1 ok
    obtain ⟨l, first, _⟩ := measured.map.entry
    exact ⟨List.ne_nil_of_mem (List.mem_of_head? first), closed, measured.depths⟩
  · obtain ⟨m', ok⟩ := verifyStack_isOk_iff.2 (depths.wellStacked full closed)
    obtain ⟨_, depth, measured⟩ := verifyStack_measured.1 ok
    obtain ⟨d', depths', greatest'⟩ := measured.depths
    rw [depths'.unique depths] at greatest'
    rw [ok, greatest'.unique greatest]
  · subst ok
    exact verifyStack_measured.2 may.measured
  · obtain ⟨closed, depth, measured⟩ := verifyStack_measured.1 ok
    obtain ⟨m', rfl⟩ := may.isOk ⟨closed, depth, measured.map⟩
    obtain ⟨_, depth', measured'⟩ := may.measured
    rw [measured.unique measured']

end Body

end ReleaseWeaver
