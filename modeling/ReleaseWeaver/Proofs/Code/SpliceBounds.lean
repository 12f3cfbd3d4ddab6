import ReleaseWeaver.Proofs.Code.Depths
import ReleaseWeaver.Proofs.Code.Splice

/-
  How much deeper a splice makes the stack. Depths of a body with a neutral run in it are depths
  of the body without the run, too, so whatever control reached before it still reaches, with the
  same depths; and what it reaches inside the run is no deeper than the run goes above the depth
  it is entered with. Main statement: a body that the check accepts with `m` is still accepted
  after a neutral run is put before an instruction, with or without the branches to that
  instruction led to the run, or after one that falls through, with an answer from `m` to `m` and
  the peak of the run.
-/

namespace ReleaseWeaver

namespace Instr

variable {r : Bool} {run : List Instr} {before : Nat}

/-- The greatest depth from the start of a run to its end. -/
def peak (returnsValue : Bool) : List Instr → Nat → Nat
  | [], before => before
  | i :: run, before => max before (peak returnsValue run (i.depthAfter returnsValue before))

theorem depthThrough_take_le_peak (r : Bool) (run : List Instr) (j before : Nat) :
    depthThrough r (run.take j) before ≤ peak r run before := by
  induction run generalizing j before with
  | nil => simp [depthThrough, peak]
  | cons i run ih =>
    cases j with
    | zero => exact Nat.le_max_left _ _
    | succ j => exact Nat.le_trans (ih j (i.depthAfter r before)) (Nat.le_max_right _ _)

/-- A run that finds its operands leaves alone what lies below. -/
theorem depthThrough_add (n : Nat) (enough : ∀ j i, run[j]? = some i →
      i.pops r ≤ depthThrough r (run.take j) before) :
    depthThrough r run (n + before) = n + depthThrough r run before := by
  induction run generalizing before with
  | nil => rfl
  | cons i run ih =>
    have first : i.pops r ≤ before := enough 0 i rfl
    have moved : i.depthAfter r (n + before) = n + i.depthAfter r before := by
      unfold depthAfter
      omega
    show depthThrough r run (i.depthAfter r (n + before)) =
      n + depthThrough r run (i.depthAfter r before)
    rw [moved]
    exact ih fun j i' here => enough (j + 1) i' here

theorem depthThrough_take_add (n j : Nat) (enough : ∀ j i, run[j]? = some i →
      i.pops r ≤ depthThrough r (run.take j) before) :
    depthThrough r (run.take j) (n + before) = n + depthThrough r (run.take j) before := by
  refine depthThrough_add n fun k i here => ?_
  rw [List.getElem?_take] at here
  split at here
  · next inside =>
    rw [List.take_take, Nat.min_eq_left (Nat.le_of_lt inside)]
    exact enough k i here
  · cases here

/-- A run that is neutral on the empty stack is neutral on any. -/
theorem Neutral.above (neutral : Neutral r run 0) (n : Nat) : Neutral r run n where
  enough j i here := by
    have operands := neutral.enough j i here
    have moved := depthThrough_take_add n j neutral.enough
    rw [Nat.add_zero] at moved
    omega
  same := by
    have moved := depthThrough_add n neutral.enough
    rw [Nat.add_zero, neutral.same] at moved
    exact moved

end Instr

namespace Body

open Instr

variable {b b' : Body} {p m : Nat} {run : List Instr} {r : Bool} {depth : Handle → Option Nat}
  {entering : Option Nat} {l : Handle × Instr}

/-! ## Taking a run out again -/

/-- A line falls through with the depth that the next one has. -/
def Carries (r : Bool) (depth : Handle → Option Nat) (l l' : Handle × Instr) : Prop :=
  l.2.fallsThrough = true → ∀ n, depth l.1 = some n → depth l'.1 = some (l.2.depthAfter r n)

/-- Control that enters a neutral run comes to the line behind it with the same depth. -/
theorem depth_through (follows : (b.insertAt p run).lines.IsChain (Carries r depth))
    (straight : ∀ i ∈ run, i.Straight) (neutral : Neutral r run 0) (line : b.lines[p]? = some l)
    (filled : run ≠ []) {n : Nat} (entered : depth (.nth (b.length + 1)) = some n) :
    depth l.1 = some n := by
  have along : ∀ j, (b.fresh run ++ b.lines.drop p)[j]?.bind (fun l' => depth l'.1) =
      some (depthThrough r (run.take j) n) ∨ run.length < j := by
    rw [lines_insertAt, List.isChain_append] at follows
    have inner := List.isChain_iff_getElem.1 follows.2.1
    intro j
    induction j with
    | zero =>
      obtain ⟨i, rest, rfl⟩ := List.exists_cons_of_ne_nil filled
      refine .inl ?_
      rw [List.getElem?_append_left (by simp), getElem?_fresh]
      exact entered
    | succ j ih =>
      obtain known | beyond := ih
      · by_cases inside : j < run.length
        · have here : run[j]? = some run[j] := List.getElem?_eq_getElem inside
          have at_j : (b.fresh run ++ b.lines.drop p)[j]? =
              some (.nth (b.length + 1 + j), run[j]) := by
            rw [List.getElem?_append_left (by simpa using inside), getElem?_fresh, here]
            rfl
          have size : j + 1 < (b.fresh run ++ b.lines.drop p).length := by
            have bound := (List.getElem?_eq_some_iff.1 line).1
            simp only [List.length_append, length_fresh, List.length_drop]
            omega
          have step := inner j size
          obtain ⟨_, eq⟩ := List.getElem?_eq_some_iff.1 at_j
          rw [at_j, Option.bind_some] at known
          rw [eq] at step
          refine .inl ?_
          rw [List.getElem?_eq_getElem size, Option.bind_some, depthThrough_take_succ here]
          exact step (straight _ (List.getElem_mem inside)).falls _ known
        · exact .inr (by omega)
      · exact .inr (by omega)
  obtain known | beyond := along run.length
  · rw [List.getElem?_append_right (by simp), length_fresh, Nat.sub_self,
      List.getElem?_drop, Nat.add_zero, line, Option.bind_some, List.take_length,
      (neutral.above n).same] at known
    exact known
  · exact absurd beyond (Nat.lt_irrefl _)

/-- Depths of a body with a neutral run in it are depths of the body. -/
theorem DepthMap.of_insertAt (map : (b.insertAt p run).DepthMap r depth)
    (straight : ∀ i ∈ run, i.Straight) (neutral : Neutral r run 0) (filled : run ≠ [])
    (line : b.lines[p]? = some l) : b.DepthMap r depth := by
  have through {n : Nat} : depth (.nth (b.length + 1)) = some n → depth l.1 = some n :=
    depth_through map.follows straight neutral line filled
  have rest : b.lines.drop p = l :: b.lines.drop (p + 1) := by
    obtain ⟨inside, eq⟩ := List.getElem?_eq_some_iff.1 line
    rw [List.drop_eq_getElem_cons inside, eq]
  have head : ∃ i, (b.fresh run).head? = some (.nth (b.length + 1), i) := by
    obtain ⟨i, rest, rfl⟩ := List.exists_cons_of_ne_nil filled
    exact ⟨i, by rw [List.head?_eq_getElem?, getElem?_fresh]; rfl⟩
  obtain ⟨i, head⟩ := head
  refine ⟨?_, fun l' listed => map.fits l' (mem_lines_insertAt.2 (.inl listed)),
    fun l' listed => map.jumps l' (mem_lines_insertAt.2 (.inl listed)), ?_⟩
  · obtain ⟨l', first, zero⟩ := map.entry
    cases p with
    | zero =>
      rw [lines_insertAt, List.take_zero, List.nil_append, List.head?_append, head,
        Option.some_or, Option.some_inj] at first
      rw [← first] at zero
      exact ⟨l, by rw [List.head?_eq_getElem?, line], through zero⟩
    | succ p =>
      have inside := (List.getElem?_eq_some_iff.1 line).1
      have first' : b.lines.head? = some b.lines[0] := by
        rw [List.head?_eq_getElem?, List.getElem?_eq_getElem (by omega)]
      rw [lines_insertAt, List.head?_append, List.head?_take, if_neg (Nat.succ_ne_zero p), first',
        Option.some_or] at first
      exact ⟨l', first' ▸ first, zero⟩
  · -- Only the way from the line before the run to the one behind it is new.
    have whole : (b.insertAt p run).lines.IsChain (Carries r depth) := map.follows
    rw [lines_insertAt, List.isChain_append, List.isChain_append] at whole
    obtain ⟨before, ⟨_, after, _⟩, enters⟩ := whole
    show b.lines.IsChain (Carries r depth)
    rw [← List.take_append_drop p b.lines, List.isChain_append]
    refine ⟨before, after, fun l₁ last l₂ first falls n known => ?_⟩
    rw [rest] at first
    cases first
    refine through (enters l₁ last (.nth (b.length + 1), i) ?_ falls n known)
    rw [Option.mem_def, List.head?_append, head, Option.some_or]

theorem carries_of_retarget {source goal : Handle}
    (carries : (b.retarget source goal).lines.IsChain (Carries r depth)) :
    b.lines.IsChain (Carries r depth) := by
  rw [lines_retarget, List.isChain_map] at carries
  refine carries.imp fun l l' step falls n known => ?_
  rw [← depthAfter_retargetLine]
  exact step (by rw [fallsThrough_retargetLine]; exact falls) n known

/-- Depths along redirected branches are depths along the old ones where control comes from the
new target to the old one with the same depth. -/
theorem DepthMap.of_retarget {source goal : Handle}
    (map : (b.retarget source goal).DepthMap r depth)
    (level : ∀ n, depth goal = some n → depth source = some n) : b.DepthMap r depth where
  entry := by
    obtain ⟨l, first, zero⟩ := map.entry
    rw [lines_retarget, List.head?_map] at first
    obtain ⟨l', first', rfl⟩ := Option.map_eq_some_iff.1 first
    exact ⟨l', first', zero⟩
  fits l listed n known := by
    have fits := map.fits _ (mem_lines_retarget.2 ⟨l, listed, rfl⟩) n known
    rw [Fits, pops_retargetLine, isRet_retargetLine] at fits
    exact fits
  jumps l listed t target n known := by
    have jumps (t : Handle) (target : (retargetLine source goal l).2.target? = some t) :
        depth t = some (l.2.depthAfter r n) := by
      rw [← depthAfter_retargetLine]
      exact map.jumps _ (mem_lines_retarget.2 ⟨l, listed, rfl⟩) t target n known
    by_cases redirected : isRetargeted source goal l = true
    · have old : t = source := by
        simp only [isRetargeted, Bool.and_eq_true, beq_iff_eq, target] at redirected
        exact Option.some.inj redirected.2
      subst old
      refine level _ (jumps goal ?_)
      rw [retargetLine, if_pos redirected, target?_withTarget, target]
      rfl
    · exact jumps t (by rw [retargetLine, if_neg redirected]; exact target)
  follows := carries_of_retarget map.follows

/-! ## What the check says of a splice -/

/-- The check accepts a body with a greatest depth from `low` to `high`. -/
def AcceptedBetween (b : Body) (returnsValue : Bool) (low high : Nat) : Prop :=
  ∃ m, b.verifyStack returnsValue = .ok m ∧ low ≤ m ∧ m ≤ high

/-- A body that has depths, all of which are depths of another one, has the greatest depth of
that one and no greater than its own depths allow. -/
theorem verifyStack_between {depth' : Handle → Option Nat} {k : Nat}
    (measured : b.Measured r m depth) (closed' : b'.Closed) (map' : b'.DepthMap r depth')
    (deep : ∀ l ∈ b'.lines, ∀ n, depth' l.1 = some n → n ≤ k ∧ l.2.depthAfter r n ≤ k)
    (smaller : ∀ d, b'.DepthMap r d → b.DepthMap r d)
    (kept : ∀ l ∈ b.lines, ∃ l' ∈ b'.lines, l'.1 = l.1 ∧ l'.2.depthAfter r = l.2.depthAfter r) :
    b'.AcceptedBetween r m k := by
  obtain ⟨m', ok⟩ := verifyStack_isOk_iff.2 ⟨closed', _, map'⟩
  obtain ⟨_, least, measured'⟩ := verifyStack_measured.1 ok
  refine ⟨m', ok, ?_, ?_⟩
  · obtain ⟨l, listed, n, known, top⟩ := measured.attained
    obtain ⟨n', known', here⟩ :=
      measured.map.agree (smaller least measured'.map) (measured.reached l listed n known)
    rw [known] at known'
    cases known'
    obtain ⟨l', listed', name, same⟩ := kept l listed
    have bounds := measured'.bound l' listed' n (by rw [name]; exact here)
    rw [same] at bounds
    obtain rfl | rfl := top
    · exact bounds.1
    · exact bounds.2
  · obtain ⟨l, listed, n, known, top⟩ := measured'.attained
    obtain ⟨n', known', here⟩ :=
      measured'.map.agree map' (measured'.reached l listed n known)
    rw [known] at known'
    cases known'
    have bounds := deep l listed n here
    obtain rfl | rfl := top
    · exact bounds.1
    · exact bounds.2

/-- Inside the run the stack is at most its peak above the depth that enters it. -/
theorem spliceDepth_le (measured : b.Measured r m depth) (neutral : Neutral r run 0)
    (low : ∀ n, entering = some n → n ≤ m) (listed : l ∈ (b.insertAt p run).lines) {n : Nat}
    (known : b.spliceDepth r run depth entering l.1 = some n) :
    n ≤ m + peak r run 0 ∧ l.2.depthAfter r n ≤ m + peak r run 0 := by
  obtain old | new := mem_lines_insertAt.1 listed
  · rw [spliceDepth_old (fst_mem_handles old)] at known
    have bounds := measured.bound l old n known
    omega
  · obtain ⟨j, i, here, rfl⟩ := mem_fresh.1 new
    rw [spliceDepth_new] at known
    obtain ⟨d, incoming, rfl⟩ := Option.map_eq_some_iff.1 known
    have within (k : Nat) : depthThrough r (run.take k) d ≤ m + peak r run 0 := by
      have moved := depthThrough_take_add d k neutral.enough
      rw [Nat.add_zero] at moved
      have top := depthThrough_take_le_peak r run k 0
      have entry := low d incoming
      omega
    exact ⟨within j, depthThrough_take_succ here ▸ within (j + 1)⟩

/-- A neutral run in a place that control enters with a depth the body has. -/
theorem verifyStack_insertAt (closed : b.Closed) (measured : b.Measured r m depth)
    (filled : run ≠ []) (straight : ∀ i ∈ run, i.Straight) (neutral : Neutral r run 0)
    (line : b.lines[p]? = some l) (enters : b.Enters r depth p entering)
    (low : ∀ n, entering = some n → n ≤ m) :
    (b.insertAt p run).AcceptedBetween r m (m + peak r run 0) := by
  have inside := (List.getElem?_eq_some_iff.1 line).1
  refine verifyStack_between measured (closed.insertAt inside straight)
    (measured.map.insertAt entering closed filled straight (fun n _ => neutral.above n) enters)
    (fun l' listed n known => spliceDepth_le measured neutral low listed known)
    (fun d map => map.of_insertAt straight neutral filled line)
    fun l' listed => ⟨l', mem_lines_insertAt.2 (.inl listed), rfl, rfl⟩

/-- A neutral run before a line, with the branches to that line led to the run. -/
theorem verifyStack_insertAt_retarget (closed : b.Closed) (measured : b.Measured r m depth)
    (filled : run ≠ []) (straight : ∀ i ∈ run, i.Straight) (neutral : Neutral r run 0)
    (line : b.lines[p]? = some l) :
    ((b.insertAt p run).retarget l.1 (.nth (b.length + 1))).AcceptedBetween r m
      (m + peak r run 0) := by
  have inside := (List.getElem?_eq_some_iff.1 line).1
  have listed : l.1 ∈ b.handles := fst_mem_handles (List.mem_of_getElem? line)
  have enters : b.Enters r depth p (depth l.1) := measured.map.enters_before line
  have low (n : Nat) (known : depth l.1 = some n) : n ≤ m :=
    (measured.bound l (List.mem_of_getElem? line) n known).1
  have wider := measured.map.insertAt (depth l.1) closed filled straight
    (fun n _ => neutral.above n) enters
  have level (n : Nat) (known : b.spliceDepth r run depth (depth l.1) l.1 = some n) :
      b.spliceDepth r run depth (depth l.1) (.nth (b.length + 1)) = some n := by
    rw [spliceDepth_old listed] at known
    have head : b.spliceDepth r run depth (depth l.1) (.nth (b.length + 1 + 0)) =
        (depth l.1).map (depthThrough r (run.take 0)) := spliceDepth_new 0
    rw [Nat.add_zero] at head
    rw [head, known]
    rfl
  refine verifyStack_between measured ((closed.insertAt inside straight).retarget ?_)
    (wider.retarget level) (fun l' listed' n known => ?_) (fun d map => ?_) fun l' listed' => ?_
  · refine mem_handles_insertAt.2 (.inr ?_)
    rw [nextHandles, Handle.mem_series]
    exact ⟨b.length + 1, by omega, by have := List.length_pos_of_ne_nil filled; omega, rfl⟩
  · obtain ⟨l'', listed'', rfl⟩ := mem_lines_retarget.1 listed'
    rw [depthAfter_retargetLine]
    exact spliceDepth_le measured neutral low listed'' known
  · refine (map.of_retarget fun n known => ?_).of_insertAt straight neutral filled line
    exact depth_through (carries_of_retarget map.follows) straight neutral line filled known
  · exact ⟨_, mem_lines_retarget.2 ⟨l', mem_lines_insertAt.2 (.inl listed'), rfl⟩, rfl,
      funext fun n => depthAfter_retargetLine l' n⟩

/-- A neutral run keeps a body accepted wherever it goes in, and the stack gets no deeper than by
the peak of the run. -/
theorem verifyStack_splice {a : Handle} {i : Instr} (verified : b.verifyStack r = .ok m)
    (listed : (a, i) ∈ b.lines) (filled : run ≠ [])
    (plain : ∀ i ∈ run, i.target? = none ∧ i.fallsThrough = true) (neutral : Neutral r run 0) :
    (∃ b', b.insertBefore a run = .ok b' ∧ b'.AcceptedBetween r m (m + peak r run 0)) ∧
    (∃ b', b.insertBeforeRetargeting a run = .ok b' ∧
      b'.AcceptedBetween r m (m + peak r run 0)) ∧
    (i.fallsThrough = true → ∃ b', b.insertAfter a run = .ok b' ∧
      b'.AcceptedBetween r m (m + peak r run 0)) := by
  obtain ⟨closed, depth, measured⟩ := verifyStack_measured.1 verified
  obtain ⟨p, found⟩ := position?_isSome.2 (fst_mem_handles listed)
  obtain ⟨i', line⟩ := position?_eq_some.1 found
  have same := line_unique listed (List.mem_of_getElem? line) rfl
  cases same
  have straight : ∀ i ∈ run, i.Straight := fun i inside =>
    ⟨(plain i inside).1, (plain i inside).2, by
      cases i <;> first | rfl | exact absurd (plain _ inside).2 (by decide)⟩
  refine ⟨⟨_, by rw [insertBefore, found], ?_⟩, ?_,
    fun falls => ⟨_, by rw [insertAfter, found], ?_⟩⟩
  · exact verifyStack_insertAt closed measured filled straight neutral line
      (measured.map.enters_before line) fun n known => (measured.bound _ listed n known).1
  · obtain ⟨head, rest, rfl⟩ := List.exists_cons_of_ne_nil filled
    exact ⟨_, insertBeforeRetargeting_eq found head rest,
      verifyStack_insertAt_retarget closed measured filled straight neutral line⟩
  · have inside := closed.inside_of_falls line falls
    refine verifyStack_insertAt closed measured filled straight neutral
      (List.getElem?_eq_getElem inside) (measured.map.enters_after line falls inside)
      fun n entering => ?_
    obtain ⟨d, known, rfl⟩ := Option.map_eq_some_iff.1 entering
    exact (measured.bound _ listed d known).2

/-- Two numbers pushed and popped around the first instruction of a loop. -/
theorem verifyStack_splice_loop :
    let b := ofInstrs [.ldarg 0, .pop, .branch .always (.nth 1)]
    let run : List Instr := [.ldint 1, .ldint 2, .pop, .pop]
    (b.verifyStack false = .ok 1 ∧ (Handle.nth 1, Instr.ldarg 0) ∈ b.lines ∧ run ≠ [] ∧
      (∀ i ∈ run, i.target? = none ∧ i.fallsThrough = true) ∧ Neutral false run 0 ∧
      peak false run 0 = 2) ∧
    (∃ b', b.insertBefore (.nth 1) run = .ok b' ∧ b'.AcceptedBetween false 1 3) ∧
    (∃ b', b.insertBeforeRetargeting (.nth 1) run = .ok b' ∧ b'.AcceptedBetween false 1 3) ∧
    ∃ b', b.insertAfter (.nth 1) run = .ok b' ∧ b'.AcceptedBetween false 1 3 := by
  intro b run
  have verified : b.verifyStack false = .ok 1 := by decide +kernel
  have listed : (Handle.nth 1, Instr.ldarg 0) ∈ b.lines := .head _
  have plain : ∀ i ∈ run, i.target? = none ∧ i.fallsThrough = true := by
    simp [run, Instr.target?, Instr.fallsThrough]
  have neutral : Neutral false run 0 := by
    refine ⟨fun j i here => ?_, rfl⟩
    match j, here with
    | 0, rfl => decide
    | 1, rfl => decide
    | 2, rfl => decide
    | 3, rfl => decide
  obtain ⟨before, retargeted, after⟩ :=
    verifyStack_splice verified listed (List.cons_ne_nil _ _) plain neutral
  exact ⟨⟨verified, listed, List.cons_ne_nil _ _, plain, neutral, rfl⟩, before, retargeted,
    after rfl⟩

end Body

end ReleaseWeaver
