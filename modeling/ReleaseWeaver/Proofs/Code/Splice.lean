import ReleaseWeaver.Proofs.Code.StackTyping

/-
  Splicing code into a body. A run of straight code is neutral on a depth when it finds its
  operands and leaves the depth as it was. Main statements: a body that passes the stack check
  still does after a neutral run is put before its first instruction, after an instruction that
  falls through, or before its final exit with the branches to that exit led to the run.
-/

namespace ReleaseWeaver

theorem forall_mem_three {α : Type} {P : α → Prop} {a b c : α} (first : P a) (second : P b)
    (third : P c) : ∀ x ∈ [a, b, c], P x :=
  List.forall_mem_cons.2 ⟨first, List.forall_mem_cons.2 ⟨second, List.forall_mem_singleton.2 third⟩⟩

namespace Instr

/-- An instruction after which control goes on with the next one and nowhere else. -/
structure Straight (i : Instr) : Prop where
  target : i.target? = none
  falls : i.fallsThrough = true
  notRet : i.isRet = false

theorem straight_iff {i : Instr} : i.Straight ↔ i.target? = none ∧ i.fallsThrough = true := by
  refine ⟨fun straight => ⟨straight.target, straight.falls⟩, fun ⟨target, falls⟩ => ?_⟩
  refine ⟨target, falls, ?_⟩
  cases i with
  | ret => cases falls
  | _ => rfl

theorem straight_behindThis {i j : Instr} (first : i.Straight) (second : j.Straight) :
    ∀ k ∈ [ldthis, i, j], k.Straight :=
  forall_mem_three ⟨rfl, rfl, rfl⟩ first second

/-- The depth after some instructions one after the other. -/
def depthThrough (returnsValue : Bool) (run : List Instr) (before : Nat) : Nat :=
  run.foldl (fun n i => i.depthAfter returnsValue n) before

theorem depthThrough_take_succ {returnsValue : Bool} {run : List Instr} {before j : Nat}
    {i : Instr} (here : run[j]? = some i) :
    depthThrough returnsValue (run.take (j + 1)) before =
      i.depthAfter returnsValue (depthThrough returnsValue (run.take j) before) := by
  rw [List.take_add_one, here, depthThrough, List.foldl_append]
  rfl

/-- A run finds its operands on a depth and leaves it as it was. -/
structure Neutral (returnsValue : Bool) (run : List Instr) (before : Nat) : Prop where
  enough : ∀ j i, run[j]? = some i →
    i.pops returnsValue ≤ depthThrough returnsValue (run.take j) before
  same : depthThrough returnsValue run before = before

/-- With the receiver on top of a depth, two instructions have to find their operands one after the
other and to end on that depth. -/
theorem neutral_behindThis_iff {r : Bool} {i j : Instr} {n : Nat} :
    Neutral r [ldthis, i, j] n ↔ i.pops r ≤ n + 1 ∧ j.pops r ≤ i.depthAfter r (n + 1) ∧
      j.depthAfter r (i.depthAfter r (n + 1)) = n := by
  constructor
  · rintro ⟨enough, same⟩
    exact ⟨enough 1 i rfl, enough 2 j rfl, same⟩
  · rintro ⟨first, second, same⟩
    refine ⟨fun k i' here => ?_, same⟩
    match k, here with
    | 0, rfl => exact Nat.zero_le n
    | 1, rfl => exact first
    | 2, rfl => exact second

end Instr

namespace Body

open Instr

variable {b : Body} {p : Nat} {run : List Instr} {r : Bool} {depth : Handle → Option Nat}
  {entering : Option Nat}

/-! ## The lines of a run -/

theorem getElem?_fresh (b : Body) (run : List Instr) (j : Nat) :
    (b.fresh run)[j]? = run[j]?.map fun i => (.nth (b.length + 1 + j), i) := by
  by_cases inside : j < run.length
  · have name : (Handle.series b.length run.length)[j]? = some (.nth (b.length + 1 + j)) := by
      simp [Handle.series, inside]
    rw [fresh, List.getElem?_eq_getElem inside, Option.map_some,
      List.getElem?_zip_eq_some]
    exact ⟨name, List.getElem?_eq_getElem inside⟩
  · have none : (b.fresh run)[j]? = none :=
      List.getElem?_eq_none (by rw [length_fresh]; omega)
    rw [none, List.getElem?_eq_none (by omega)]
    rfl

theorem mem_fresh {l : Handle × Instr} :
    l ∈ b.fresh run ↔ ∃ j i, run[j]? = some i ∧ l = (.nth (b.length + 1 + j), i) := by
  rw [List.mem_iff_getElem?]
  refine ⟨fun ⟨j, line⟩ => ?_, fun ⟨j, i, here, same⟩ => ⟨j, ?_⟩⟩
  · rw [getElem?_fresh] at line
    obtain ⟨i, here, same⟩ := Option.map_eq_some_iff.1 line
    exact ⟨j, i, here, same.symm⟩
  · rw [getElem?_fresh, here, same]
    rfl

theorem nth_not_mem_handles (j : Nat) : .nth (b.length + 1 + j) ∉ b.handles := by
  intro listed
  obtain ⟨k, _, small, same⟩ := mem_handles.1 listed
  cases same
  omega

/-! ## Depths around a run -/

/-- Depths for a body with a run spliced in, from those without the run and the depth with which
control enters the run. -/
def spliceDepth (b : Body) (r : Bool) (run : List Instr) (depth : Handle → Option Nat)
    (entering : Option Nat) (h : Handle) : Option Nat :=
  if h ∈ b.handles then depth h
  else entering.map (depthThrough r (run.take (h.number - (b.length + 1))))

theorem spliceDepth_old {h : Handle} (listed : h ∈ b.handles) :
    b.spliceDepth r run depth entering h = depth h := if_pos listed

theorem spliceDepth_new (j : Nat) :
    b.spliceDepth r run depth entering (.nth (b.length + 1 + j)) =
      entering.map (depthThrough r (run.take j)) := by
  rw [spliceDepth, if_neg (nth_not_mem_handles j)]
  congr 3
  show b.length + 1 + j - (b.length + 1) = j
  omega

/-- What the depths around position `p` have to do with the depth that enters the run. -/
structure Enters (b : Body) (r : Bool) (depth : Handle → Option Nat) (p : Nat)
    (entering : Option Nat) : Prop where
  atHead : p = 0 → entering = some 0
  fromBefore : ∀ l, (b.lines.take p).getLast? = some l → l.2.fallsThrough = true →
    ∀ n, depth l.1 = some n → entering = some (l.2.depthAfter r n)
  leadsTo : ∀ l, b.lines[p]? = some l → ∀ n, entering = some n → depth l.1 = some n

theorem DepthMap.follows_insertAt (map : b.DepthMap r depth) (filled : run ≠ [])
    (neutral : ∀ n, entering = some n → Neutral r run n) (enters : b.Enters r depth p entering) :
    (b.insertAt p run).lines.IsChain fun l l' => l.2.fallsThrough = true →
      ∀ n, b.spliceDepth r run depth entering l.1 = some n →
        b.spliceDepth r run depth entering l'.1 = some (l.2.depthAfter r n) := by
  have old {l l' : Handle × Instr} (listed : l ∈ b.lines) (listed' : l' ∈ b.lines)
      (follows : l.2.fallsThrough = true → ∀ n, depth l.1 = some n →
        depth l'.1 = some (l.2.depthAfter r n)) :
      l.2.fallsThrough = true → ∀ n, b.spliceDepth r run depth entering l.1 = some n →
        b.spliceDepth r run depth entering l'.1 = some (l.2.depthAfter r n) := by
    rw [spliceDepth_old (fst_mem_handles listed), spliceDepth_old (fst_mem_handles listed')]
    exact follows
  have whole := map.follows
  rw [← List.take_append_drop p b.lines, List.isChain_append] at whole
  obtain ⟨before, after, _⟩ := whole
  rw [lines_insertAt, List.isChain_append, List.isChain_append]
  refine ⟨?_, ⟨?_, ?_, ?_⟩, ?_⟩
  · refine before.imp_of_mem_imp fun l l' listed listed' => ?_
    exact old (List.mem_of_mem_take listed) (List.mem_of_mem_take listed')
  · -- Inside the run each instruction finds what the one before it has left.
    rw [List.isChain_iff_getElem]
    intro j inside _ n known
    have here : run[j]? = some (b.fresh run)[j].2 := by
      have line := List.getElem?_eq_getElem (Nat.lt_of_succ_lt inside)
      rw [getElem?_fresh] at line
      obtain ⟨i, here, same⟩ := Option.map_eq_some_iff.1 line
      rw [here, ← same]
    have names (k : Nat) (bound : k < (b.fresh run).length) :
        (b.fresh run)[k].1 = .nth (b.length + 1 + k) := by
      have line := List.getElem?_eq_getElem bound
      rw [getElem?_fresh] at line
      obtain ⟨i, _, same⟩ := Option.map_eq_some_iff.1 line
      rw [← same]
    rw [names, spliceDepth_new] at known
    obtain ⟨d, enters, rfl⟩ := Option.map_eq_some_iff.1 known
    rw [names, spliceDepth_new, enters, Option.map_some, depthThrough_take_succ here]
  · refine after.imp_of_mem_imp fun l l' listed listed' => ?_
    exact old (List.mem_of_mem_drop listed) (List.mem_of_mem_drop listed')
  · intro l last l' first _ n known
    obtain ⟨k, full⟩ : ∃ k, run.length = k + 1 :=
      Nat.exists_eq_succ_of_ne_zero (by simpa using filled)
    rw [Option.mem_def, List.getLast?_eq_getElem?, length_fresh, full, Nat.add_sub_cancel,
      getElem?_fresh] at last
    obtain ⟨i, here, rfl⟩ := Option.map_eq_some_iff.1 last
    rw [Option.mem_def, List.head?_drop] at first
    rw [spliceDepth_new] at known
    obtain ⟨d, incoming, rfl⟩ := Option.map_eq_some_iff.1 known
    rw [spliceDepth_old (fst_mem_handles (List.mem_of_getElem? first)),
      enters.leadsTo l' first d incoming]
    rw [← depthThrough_take_succ here, ← full, List.take_length, (neutral d incoming).same]
  · intro l last l' first falls n known
    obtain ⟨i, rest, rfl⟩ := List.exists_cons_of_ne_nil filled
    have listed : l ∈ b.lines := List.mem_of_mem_take (List.mem_of_getLast? last)
    rw [spliceDepth_old (fst_mem_handles listed)] at known
    have here : (b.fresh (i :: rest)).head? = some (.nth (b.length + 1 + 0), i) := by
      rw [List.head?_eq_getElem?, getElem?_fresh]
      rfl
    rw [Option.mem_def, List.head?_append, here, Option.some_or, Option.some_inj] at first
    rw [← first, spliceDepth_new, enters.fromBefore l last falls n known]
    rfl

theorem DepthMap.insertAt (entering : Option Nat) (map : b.DepthMap r depth) (closed : b.Closed)
    (filled : run ≠ [])
    (straight : ∀ i ∈ run, i.Straight)
    (neutral : ∀ n, entering = some n → Neutral r run n) (enters : b.Enters r depth p entering) :
    (b.insertAt p run).DepthMap r (b.spliceDepth r run depth entering) where
  entry := by
    obtain ⟨l, first, zero⟩ := map.entry
    cases p with
    | zero =>
      obtain ⟨i, rest, rfl⟩ := List.exists_cons_of_ne_nil filled
      refine ⟨(.nth (b.length + 1 + 0), i), ?_, ?_⟩
      · rw [lines_insertAt, List.take_zero, List.nil_append, List.head?_append,
          List.head?_eq_getElem?, getElem?_fresh]
        rfl
      · rw [spliceDepth_new, enters.atHead rfl]
        rfl
    | succ p =>
      refine ⟨l, ?_, ?_⟩
      · rw [lines_insertAt, List.head?_append, List.head?_take, if_neg (Nat.succ_ne_zero p),
          first, Option.some_or]
      · rw [spliceDepth_old (fst_mem_handles (List.mem_of_head? first)), zero]
  fits := by
    intro l listed n known
    obtain old | new := mem_lines_insertAt.1 listed
    · rw [spliceDepth_old (fst_mem_handles old)] at known
      exact map.fits l old n known
    · obtain ⟨j, i, here, rfl⟩ := mem_fresh.1 new
      rw [spliceDepth_new] at known
      obtain ⟨d, incoming, rfl⟩ := Option.map_eq_some_iff.1 known
      have notRet := (straight i (List.mem_of_getElem? here)).notRet
      exact ⟨(neutral d incoming).enough j i here, fun ret => absurd ret (by simp [notRet])⟩
  jumps := by
    intro l listed t target n known
    obtain old | new := mem_lines_insertAt.1 listed
    · rw [spliceDepth_old (fst_mem_handles old)] at known
      rw [spliceDepth_old (closed.targets l old t target)]
      exact map.jumps l old t target n known
    · have none := (straight l.2 (snd_mem_of_mem_fresh new)).target
      rw [none] at target
      cases target
  follows := map.follows_insertAt filled neutral enters

theorem Closed.insertAt (closed : b.Closed) (inside : p < b.lines.length)
    (straight : ∀ i ∈ run, i.Straight) : (b.insertAt p run).Closed where
  targets := by
    intro l listed t target
    obtain old | new := mem_lines_insertAt.1 listed
    · exact mem_handles_insertAt.2 (.inl (closed.targets l old t target))
    · rw [(straight l.2 (snd_mem_of_mem_fresh new)).target] at target
      cases target
  ends := by
    intro l last
    rw [lines_insertAt, ← List.append_assoc,
      List.getLast?_append_of_ne_nil _ (by simpa using inside)] at last
    refine closed.ends l ?_
    rw [← List.take_append_drop p b.lines, List.getLast?_append_of_ne_nil _ (by simpa using inside)]
    exact last

/-- A line that falls through is not the last one. -/
theorem Closed.inside_of_falls (closed : b.Closed) {l : Handle × Instr}
    (line : b.lines[p]? = some l) (falls : l.2.fallsThrough = true) : p + 1 < b.lines.length := by
  by_contra beyond
  obtain ⟨inside, _⟩ := List.getElem?_eq_some_iff.1 line
  have last : b.lines.getLast? = some l := by
    rw [List.getLast?_eq_getElem?, show b.lines.length - 1 = p by omega, line]
  rw [closed.ends l last] at falls
  cases falls

/-- Control enters a run before a line with the depth of that line. -/
theorem DepthMap.enters_before (map : b.DepthMap r depth) {l : Handle × Instr}
    (line : b.lines[p]? = some l) : b.Enters r depth p (depth l.1) := by
  obtain ⟨inside, eq⟩ := List.getElem?_eq_some_iff.1 line
  refine ⟨fun start => ?_, fun l' last falls n known => ?_, fun l' here n known => ?_⟩
  · obtain ⟨l', first, zero⟩ := map.entry
    rw [start, ← List.head?_eq_getElem?, first] at line
    cases line
    exact zero
  · cases p with
    | zero => cases last
    | succ p =>
      rw [List.getLast?_take, if_neg (Nat.succ_ne_zero p), Nat.add_sub_cancel,
        List.getElem?_eq_getElem (Nat.lt_of_succ_lt inside), Option.some_or] at last
      have follows := (List.isChain_iff_getElem.1 map.follows) p inside
      cases last
      rw [eq] at follows
      exact follows falls n known
  · rw [line] at here
    cases here
    exact known

/-- Control enters a run after a line with the depth that the line leaves. -/
theorem DepthMap.enters_after (map : b.DepthMap r depth) {l : Handle × Instr}
    (line : b.lines[p]? = some l) (falls : l.2.fallsThrough = true)
    (inside : p + 1 < b.lines.length) :
    b.Enters r depth (p + 1) ((depth l.1).map (l.2.depthAfter r)) := by
  obtain ⟨_, eq⟩ := List.getElem?_eq_some_iff.1 line
  refine ⟨fun impossible => absurd impossible (Nat.succ_ne_zero p), fun l' last _ n known => ?_,
    fun l' next n entering => ?_⟩
  · rw [List.take_add_one, line, Option.toList_some, List.getLast?_concat] at last
    cases last
    rw [known]
    rfl
  · obtain ⟨d, known, rfl⟩ := Option.map_eq_some_iff.1 entering
    have follows := (List.isChain_iff_getElem.1 map.follows) p inside
    obtain ⟨_, eq'⟩ := List.getElem?_eq_some_iff.1 next
    rw [eq, eq'] at follows
    exact follows falls d known

/-! ## Redirected branches -/

section Retarget

variable {source goal : Handle}

theorem Closed.retarget (closed : b.Closed) (listed : goal ∈ b.handles) :
    (b.retarget source goal).Closed where
  targets := by
    intro l line t target
    rw [handles_retarget]
    obtain ⟨l', line', rfl⟩ := mem_lines_retarget.1 line
    obtain same | ⟨_, rfl⟩ := target?_retargetLine l' target
    · exact closed.targets l' line' t same
    · exact listed
  ends := by
    intro l last
    rw [lines_retarget, List.getLast?_map] at last
    obtain ⟨l', last', rfl⟩ := Option.map_eq_some_iff.1 last
    rw [fallsThrough_retargetLine]
    exact closed.ends l' last'

theorem depthAfter_retargetLine (l : Handle × Instr) (n : Nat) :
    (retargetLine source goal l).2.depthAfter r n = l.2.depthAfter r n := by
  rw [Instr.depthAfter, pops_retargetLine, pushes_retargetLine]
  rfl

theorem DepthMap.retarget (map : b.DepthMap r depth)
    (level : ∀ n, depth source = some n → depth goal = some n) :
    (b.retarget source goal).DepthMap r depth where
  entry := by
    obtain ⟨l, first, zero⟩ := map.entry
    refine ⟨retargetLine source goal l, ?_, zero⟩
    rw [lines_retarget, List.head?_map, first]
    rfl
  fits := by
    intro l line n known
    obtain ⟨l', line', rfl⟩ := mem_lines_retarget.1 line
    have fits := map.fits l' line' n known
    exact ⟨by rw [pops_retargetLine]; exact fits.1, by rw [isRet_retargetLine]; exact fits.2⟩
  jumps := by
    intro l line t target n known
    obtain ⟨l', line', rfl⟩ := mem_lines_retarget.1 line
    rw [depthAfter_retargetLine]
    obtain same | ⟨old, rfl⟩ := target?_retargetLine l' target
    · exact map.jumps l' line' t same n known
    · exact level _ (map.jumps l' line' source old n known)
  follows := by
    rw [lines_retarget, List.isChain_map]
    refine map.follows.imp fun l l' follows falls n known => ?_
    rw [depthAfter_retargetLine]
    exact follows (by rw [← fallsThrough_retargetLine]; exact falls) n known

end Retarget

/-! ## The three places -/

namespace WellStacked

/-- Before the first instruction. -/
theorem insertAt_zero (typed : b.WellStacked r) (filled : run ≠ [])
    (straight : ∀ i ∈ run, i.Straight) (neutral : Neutral r run 0) :
    (b.insertAt 0 run).WellStacked r := by
  obtain ⟨closed, depth, map⟩ := typed
  obtain ⟨l, first, zero⟩ := map.entry
  have inside : 0 < b.lines.length := List.length_pos_of_mem (List.mem_of_head? first)
  refine ⟨closed.insertAt inside straight, _, map.insertAt (some 0) closed filled
    straight ?_ ⟨fun _ => rfl, ?_, ?_⟩⟩
  · intro n same
    cases same
    exact neutral
  · intro l' last
    cases last
  · intro l' here n same
    cases same
    rw [← List.head?_eq_getElem?, first] at here
    cases here
    exact zero

/-- After an instruction that pushes a value and falls through. -/
theorem insertAfter (typed : b.WellStacked r) (filled : run ≠ [])
    (straight : ∀ i ∈ run, i.Straight) (neutral : ∀ n, Neutral r run (n + 1)) {h : Handle}
    {i : Instr} (listed : (h, i) ∈ b.lines) (falls : i.fallsThrough = true)
    (one : i.pushes = 1) : ∃ b', b.insertAfter h run = .ok b' ∧ b'.WellStacked r := by
  obtain ⟨closed, depth, map⟩ := typed
  obtain ⟨p, found⟩ := position?_isSome.2 (fst_mem_handles listed)
  obtain ⟨i', line⟩ := position?_eq_some.1 found
  have same := line_unique listed (List.mem_of_getElem? line) rfl
  cases same
  have inside := closed.inside_of_falls line falls
  refine ⟨b.insertAt (p + 1) run, by rw [Body.insertAfter, found], closed.insertAt inside straight,
    _, map.insertAt _ closed filled straight ?_ (map.enters_after line falls inside)⟩
  intro n entering
  obtain ⟨d, known, rfl⟩ := Option.map_eq_some_iff.1 entering
  rw [Instr.depthAfter, one]
  exact neutral _

/-- Before the final exit, and in the way of the branches to it. -/
theorem insertBeforeExit (typed : b.WellStacked r) (filled : run ≠ [])
    (straight : ∀ i ∈ run, i.Straight) (neutral : ∀ n, Neutral r run n) {exit : Handle}
    (final : b.finalExit? = some exit) :
    ∃ b', b.insertBeforeRetargeting exit run = .ok b' ∧ b'.WellStacked r := by
  obtain ⟨closed, depth, map⟩ := typed
  obtain ⟨p, found⟩ := position?_isSome.2 (mem_handles_of_finalExit? final)
  obtain ⟨i', line⟩ := position?_eq_some.1 found
  obtain ⟨inside, _⟩ := List.getElem?_eq_some_iff.1 line
  obtain ⟨i, rest, rfl⟩ := List.exists_cons_of_ne_nil filled
  have enters : b.Enters r depth p (depth exit) := map.enters_before line
  have wider := map.insertAt (depth exit) closed filled straight (fun n _ => neutral n) enters
  refine ⟨_, insertBeforeRetargeting_eq found i rest,
    (closed.insertAt inside straight).retarget ?_, _, wider.retarget fun n known => ?_⟩
  · refine mem_handles_insertAt.2 (.inr ?_)
    rw [nextHandles, Handle.mem_series]
    exact ⟨b.length + 1, by omega, by simp, rfl⟩
  · rw [spliceDepth_old (mem_handles_of_finalExit? final)] at known
    have head : b.spliceDepth r (i :: rest) depth (depth exit) (.nth (b.length + 1 + 0)) =
        (depth exit).map (depthThrough r ((i :: rest).take 0)) := spliceDepth_new 0
    rw [Nat.add_zero] at head
    rw [head, known]
    rfl

end WellStacked

end Body

end ReleaseWeaver
