import ReleaseWeaver.Proofs.Code.Depths
import ReleaseWeaver.Proofs.Code.Edits

/-
  Paths of a body: what control may pass one after the other, from the first instruction on. An
  insertion changes the paths in one of two ways. Put before the first instruction, out of the
  way of all branches, a run is passed once, and then comes a path of the body as it was. Put
  before an instruction and in the way of the branches to it, a run is passed on each arrival at
  that instruction. Main statements: `Preceded.isPath_iff` and `Detoured.isPath_iff`, which say
  in both directions what the paths of the two bodies have to do with each other.
-/

namespace ReleaseWeaver

namespace Body

variable {b b' : Body} {path path' run : List Handle} {h h' exit : Handle}

/-- Control may go from one instruction to the other. -/
def Edge (b : Body) (h h' : Handle) : Prop :=
  ∃ l ∈ b.lines, ∃ l' ∈ b.lines, b.Follows l l' ∧ l.1 = h ∧ l'.1 = h'

/-- Instructions that control may pass one after the other, the first one of the body first. -/
def IsPath (b : Body) (path : List Handle) : Prop :=
  (∃ h, b.first? = some h ∧ path.head? = some h) ∧ path.IsChain b.Edge

/-- Where control may go from a line: to the target of its branch, or on to the next one. -/
theorem edge_of_line {p : Nat} {l : Handle × Instr} (line : b.lines[p]? = some l) :
    b.Edge l.1 h' ↔ l.2.target? = some h' ∧ h' ∈ b.handles ∨
      l.2.fallsThrough = true ∧ b.at? (p + 1) = some h' := by
  have found : b.position? l.1 = some p := position?_eq_some.2 ⟨l.2, line⟩
  have next : b.next? l.1 = b.at? (p + 1) := by rw [next?, found, Option.bind_some]
  constructor
  · rintro ⟨l₁, listed, l', listed', follows, same, rfl⟩
    obtain rfl := line_unique listed (List.mem_of_getElem? line) same
    rw [← next]
    exact follows.imp (fun target => ⟨target, fst_mem_handles listed'⟩) id
  · rintro (⟨target, listed⟩ | ⟨falls, after⟩)
    · obtain ⟨l', listed', rfl⟩ := List.mem_map.1 listed
      exact ⟨l, List.mem_of_getElem? line, l', listed', .inl target, rfl, rfl⟩
    · obtain ⟨i, line'⟩ := at?_eq_some_iff.1 after
      exact ⟨l, List.mem_of_getElem? line, (h', i), List.mem_of_getElem? line',
        .inr ⟨falls, next.trans after⟩, rfl, rfl⟩

theorem not_edge_of_ret (line : (h, .ret) ∈ b.lines) : ¬b.Edge h h' := by
  obtain ⟨p, line⟩ := List.mem_iff_getElem?.1 line
  rw [edge_of_line line]
  rintro (⟨impossible, _⟩ | ⟨impossible, _⟩) <;> cases impossible

theorem Edge.mem_handles (edge : b.Edge h h') : h ∈ b.handles ∧ h' ∈ b.handles := by
  obtain ⟨l, listed, l', listed', _, rfl, rfl⟩ := edge
  exact ⟨fst_mem_handles listed, fst_mem_handles listed'⟩

/-- Where a body has a flow, its edges are those of the flow. -/
theorem mem_flowEdges {flow : List (List Nat)} (flows : b.flow = .ok flow) :
    (h, h') ∈ b.flowEdges flow ↔ b.Edge h h' := by
  simp only [flowEdges, List.mem_flatMap, List.mem_map, List.mem_filterMap, Prod.mk.injEq,
    Prod.exists]
  constructor
  · rintro ⟨_, qs, zipped, h'', ⟨q, successor, there⟩, rfl, rfl⟩
    obtain ⟨p, both⟩ := List.mem_iff_getElem?.1 zipped
    obtain ⟨here, known⟩ := List.getElem?_zip_eq_some.1 both
    obtain ⟨i, line⟩ := at?_eq_some_iff.1 here
    obtain ⟨i', line'⟩ := at?_eq_some_iff.1 there
    refine ⟨_, List.mem_of_getElem? line, _, List.mem_of_getElem? line', ?_, rfl, rfl⟩
    exact (mem_flow flows line line').1 (by rw [known]; exact successor)
  · rintro ⟨l, listed, l', listed', follows, rfl, rfl⟩
    obtain ⟨p, line⟩ := List.mem_iff_getElem?.1 listed
    obtain ⟨q, line'⟩ := List.mem_iff_getElem?.1 listed'
    have successor := (mem_flow flows line line').2 follows
    cases known : flow[p]? with
    | none =>
      rw [known] at successor
      cases successor
    | some qs =>
      rw [known] at successor
      have both : (b.handles.zip flow)[p]? = some (l.1, qs) :=
        List.getElem?_zip_eq_some.2 ⟨at?_eq_some_iff.2 ⟨l.2, line⟩, known⟩
      exact ⟨l.1, qs, List.mem_of_getElem? both, l'.1,
        ⟨q, successor, at?_eq_some_iff.2 ⟨l'.2, line'⟩⟩, rfl, rfl⟩

/-- The body has a flow, and the edges of it are the steps that paths are made of. -/
def Charted (b : Body) : Prop :=
  ∃ flow, b.flow = .ok flow ∧ ∀ h h', (h, h') ∈ b.flowEdges flow ↔ b.Edge h h'

theorem Closed.charted (closed : b.Closed) : b.Charted := by
  obtain ⟨flow, flows⟩ := flow_of_closed closed
  exact ⟨flow, flows, fun h h' => mem_flowEdges flows⟩

/-! ## Paths step by step -/

/-- A path is the first instruction, or a path and one more step. -/
theorem isPath_concat : b.IsPath (path ++ [h]) ↔
    path = [] ∧ b.first? = some h ∨ b.IsPath path ∧ ∃ h', path.getLast? = some h' ∧ b.Edge h' h := by
  cases path with
  | nil => simp [IsPath]
  | cons start rest =>
    have ends : (start :: rest).getLast? = some ((start :: rest).getLast (List.cons_ne_nil _ _)) :=
      List.getLast?_eq_some_getLast _
    rw [IsPath, IsPath, List.isChain_append, ends]
    simp [and_assoc]

theorem IsPath.ne_nil (isPath : b.IsPath path) : path ≠ [] := by
  obtain ⟨⟨h, _, head⟩, _⟩ := isPath
  rintro rfl
  cases head

theorem IsPath.mem_handles (isPath : b.IsPath path) : ∀ h ∈ path, h ∈ b.handles := by
  induction path using List.reverseRecOn with
  | nil => simp
  | append_singleton path last ih =>
    intro h listed
    obtain ⟨rfl, first⟩ | ⟨before, h', _, edge⟩ := isPath_concat.1 isPath
    · rw [List.nil_append, List.mem_singleton] at listed
      exact listed ▸ List.mem_of_head? first
    · obtain old | new := List.mem_append.1 listed
      · exact ih before h old
      · exact List.mem_singleton.1 new ▸ edge.mem_handles.2

theorem IsPath.of_front (isPath : b.IsPath path) (front : path' <+: path) (filled : path' ≠ []) :
    b.IsPath path' := by
  obtain ⟨rest, rfl⟩ := front
  obtain ⟨⟨h, first, head⟩, chain⟩ := isPath
  rw [List.head?_append_of_ne_nil _ filled] at head
  exact ⟨⟨h, first, head⟩, (List.isChain_append.1 chain).1⟩

/-- From each instruction of a run control goes on to the next one, and from the last one to what
comes then. -/
def Passes (b : Body) (run rest : List Handle) : Prop :=
  ∀ k h, run[k]? = some h → ∀ h', b.Edge h h' ↔ (run ++ rest)[k + 1]? = some h'

theorem Passes.isChain {rest : List Handle} (passes : b.Passes run rest) :
    (run ++ rest.head?.toList).IsChain b.Edge := by
  rw [List.isChain_iff_getElem]
  intro k inside
  have bound : k < run.length := by
    have short : rest.head?.toList.length ≤ 1 := by cases rest <;> simp
    rw [List.length_append] at inside
    omega
  have here : run[k]? = some (run ++ rest.head?.toList)[k] := by
    rw [List.getElem_append_left bound, List.getElem?_eq_getElem bound]
  refine (passes k _ here _).2 ?_
  by_cases next : k + 1 < run.length
  · rw [List.getElem?_append_left next, List.getElem_append_left next,
      List.getElem?_eq_getElem next]
  · have last : run.length = k + 1 := by omega
    have filled : rest.head?.toList ≠ [] := by
      rintro none
      rw [none, List.append_nil] at inside
      omega
    cases rest with
    | nil => exact absurd rfl filled
    | cons h rest => simp [last]

/-- Straight lines one after the other pass control on. -/
theorem passes_of_lines {front middle rest : List (Handle × Instr)}
    (lines : b.lines = front ++ (middle ++ rest)) (straight : ∀ l ∈ middle, l.2.Straight) :
    b.Passes (middle.map Prod.fst) (rest.map Prod.fst) := by
  intro k h named h'
  rw [List.getElem?_map] at named
  obtain ⟨l, here, rfl⟩ := Option.map_eq_some_iff.1 named
  obtain ⟨bound, _⟩ := List.getElem?_eq_some_iff.1 here
  have line : b.lines[front.length + k]? = some l := by
    rw [lines, List.getElem?_append_right (by omega), Nat.add_sub_cancel_left,
      List.getElem?_append_left bound, here]
  have next : b.at? (front.length + k + 1) =
      (middle.map Prod.fst ++ rest.map Prod.fst)[k + 1]? := by
    rw [at?, handles, lines, List.map_append, List.map_append,
      List.getElem?_append_right (by rw [List.length_map]; omega), List.length_map, Nat.add_assoc,
      Nat.add_sub_cancel_left]
  obtain ⟨target, falls, _⟩ := straight l (List.mem_of_getElem? here)
  rw [edge_of_line line, target, falls, next]
  simp

/-! ## A run before the first instruction -/

/-- The second body is the first one with a run before it, to which no branch leads. -/
structure Preceded (b b' : Body) (run : List Handle) : Prop where
  fresh : ∀ h ∈ run, h ∉ b.handles
  starts : b'.first? = (run ++ b.handles).head?
  through : b'.Passes run b.handles
  same : ∀ h ∈ b.handles, ∀ h', b'.Edge h h' ↔ b.Edge h h'

namespace Preceded

variable (preceded : b.Preceded b' run)

include preceded

theorem isPath_append (isPath : b.IsPath path) : b'.IsPath (run ++ path) := by
  obtain ⟨⟨first, head, start⟩, chain⟩ := isPath
  have listed := IsPath.mem_handles ⟨⟨first, head, start⟩, chain⟩
  have through := preceded.through.isChain
  rw [show b.handles.head? = some first from head, Option.toList_some] at through
  refine ⟨?_, ?_⟩
  · rw [preceded.starts, List.head?_append, List.head?_append, start,
      show b.handles.head? = some first from head]
    cases run.head? with
    | none => exact ⟨first, rfl, rfl⟩
    | some h => exact ⟨h, rfl, rfl⟩
  · rw [List.isChain_append] at through ⊢
    refine ⟨through.1, ?_, ?_⟩
    · refine chain.imp_of_mem_imp fun h h' old _ edge => ?_
      exact (preceded.same h (listed h old) h').2 edge
    · rw [start]
      exact through.2.2

theorem isPath_of_front (front : path' <+: run) (filled : path' ≠ []) : b'.IsPath path' := by
  obtain ⟨rest, rfl⟩ := front
  refine ⟨?_, ?_⟩
  · rw [preceded.starts, List.append_assoc, List.head?_append_of_ne_nil _ filled]
    obtain ⟨h, tail, rfl⟩ := List.exists_cons_of_ne_nil filled
    exact ⟨h, rfl, rfl⟩
  · have through := preceded.through.isChain
    rw [List.append_assoc] at through
    exact (List.isChain_append.1 through).1

/-- The paths are the beginnings of the run, and the run once with a path of the first body. -/
theorem isPath_iff : b'.IsPath path' ↔
    path' ≠ [] ∧ path' <+: run ∨ ∃ path, b.IsPath path ∧ path' = run ++ path := by
  refine ⟨fun isPath => ?_, ?_⟩
  swap
  · rintro (⟨filled, front⟩ | ⟨path, isPath, rfl⟩)
    · exact preceded.isPath_of_front front filled
    · exact preceded.isPath_append isPath
  induction path' using List.reverseRecOn with
  | nil => exact absurd rfl isPath.ne_nil
  | append_singleton path' h ih =>
    obtain ⟨rfl, first⟩ | ⟨before, last, ends, edge⟩ := isPath_concat.1 isPath
    · rw [preceded.starts] at first
      cases run with
      | nil =>
        rw [List.nil_append] at first
        exact .inr ⟨[h], isPath_concat.2 (.inl ⟨rfl, first⟩), rfl⟩
      | cons r rest =>
        cases first
        exact .inl ⟨List.cons_ne_nil _ _, ⟨rest, rfl⟩⟩
    · obtain ⟨filled, rest, rfl⟩ | ⟨path, old, rfl⟩ := ih before
      · -- In the run, or at its last instruction.
        obtain ⟨init, rfl⟩ := List.getLast?_eq_some_iff.1 ends
        have here : (init ++ [last] ++ rest)[init.length]? = some last := by simp
        have next := (preceded.through init.length last here h).1 edge
        rw [List.append_assoc, List.getElem?_append_right (by simp)] at next
        simp only [List.length_append, List.length_singleton, Nat.sub_self] at next
        cases rest with
        | nil =>
          rw [List.nil_append, ← List.head?_eq_getElem?] at next
          exact .inr ⟨[h], isPath_concat.2 (.inl ⟨rfl, next⟩), by simp⟩
        | cons r rest =>
          cases next
          exact .inl ⟨by simp, ⟨rest, by simp⟩⟩
      · have listed : last ∈ b.handles := by
          rw [List.getLast?_append_of_ne_nil _ old.ne_nil] at ends
          exact old.mem_handles last (List.mem_of_getLast? ends)
        rw [List.getLast?_append_of_ne_nil _ old.ne_nil] at ends
        have step : b.IsPath (path ++ [h]) :=
          isPath_concat.2 (.inr ⟨old, last, ends, (preceded.same last listed h).1 edge⟩)
        exact .inr ⟨path ++ [h], step, List.append_assoc _ _ _⟩

end Preceded

/-! ## A run before each arrival at an instruction -/

/-- A path with a run before each arrival at an instruction. -/
def withDetour (exit : Handle) (run path : List Handle) : List Handle :=
  path.flatMap fun h => if h = exit then run ++ [h] else [h]

/-- The instruction to which one goes that leads to `h`. -/
def entering (exit : Handle) (run : List Handle) (h : Handle) : Handle :=
  if h = exit then run.headD exit else h

theorem withDetour_append (exit : Handle) (run path path' : List Handle) :
    withDetour exit run (path ++ path') = withDetour exit run path ++ withDetour exit run path' :=
  List.flatMap_append

theorem withDetour_singleton (exit : Handle) (run : List Handle) (h : Handle) :
    withDetour exit run [h] = if h = exit then run ++ [h] else [h] := by
  rw [withDetour, List.flatMap_singleton]

theorem getLast?_withDetour (exit : Handle) (run path : List Handle) :
    (withDetour exit run path).getLast? = path.getLast? := by
  induction path using List.reverseRecOn with
  | nil => rfl
  | append_singleton path h _ =>
    rw [withDetour_append, withDetour_singleton, List.getLast?_concat]
    split
    · rw [← List.append_assoc, List.getLast?_concat]
    · rw [List.getLast?_concat]

theorem head?_withDetour (exit : Handle) (run path : List Handle) :
    (withDetour exit run path).head? = path.head?.map (entering exit run) := by
  cases path with
  | nil => rfl
  | cons h rest =>
    rw [← List.singleton_append, withDetour_append, withDetour_singleton]
    show _ = some (entering exit run h)
    unfold entering
    split
    · next same =>
      cases run with
      | nil => exact congrArg some same
      | cons r run => rfl
    · rfl

/-- Without the run, the path is what it was. -/
theorem filter_withDetour (fresh : ∀ h ∈ run, h ∉ b.handles) (old : ∀ h ∈ path, h ∈ b.handles) :
    (withDetour exit run path).filter (· ∈ b.handles) = path := by
  have none : run.filter (· ∈ b.handles) = [] := by simpa using fresh
  induction path with
  | nil => rfl
  | cons h rest ih =>
    have here : [h].filter (· ∈ b.handles) = [h] := by simp [old h List.mem_cons_self]
    rw [← List.singleton_append, withDetour_append, List.filter_append,
      ih fun h' listed => old h' (List.mem_cons_of_mem h listed), withDetour_singleton]
    congr 1
    split
    · rw [List.filter_append, none, here]
      rfl
    · exact here

/-- In the second body each arrival at an instruction of the first one comes through a run. -/
structure Detoured (b b' : Body) (exit : Handle) (run : List Handle) : Prop where
  listed : exit ∈ b.handles
  fresh : ∀ h ∈ run, h ∉ b.handles
  starts : b'.first? = b.first?.map (entering exit run)
  through : b'.Passes run [exit]
  leads : ∀ h ∈ b.handles, ∀ h', b'.Edge h h' ↔ ∃ h'', b.Edge h h'' ∧ h' = entering exit run h''

/-- Where a path stands: it has come as far as one of the first body, or part of the way through
the run to the exit. -/
inductive OnDetour (b : Body) (exit : Handle) (run : List Handle) : List Handle → Prop
  | arrived {path : List Handle} : b.IsPath path → b.OnDetour exit run (withDetour exit run path)
  | within {path : List Handle} {k : Nat} : b.IsPath (path ++ [exit]) → k < run.length →
      b.OnDetour exit run (withDetour exit run path ++ run.take (k + 1))

namespace Detoured

variable (detoured : b.Detoured b' exit run)

include detoured

theorem isChain_withDetour (chain : path.IsChain b.Edge) (old : ∀ h ∈ path, h ∈ b.handles) :
    (withDetour exit run path).IsChain b'.Edge := by
  induction path with
  | nil => exact .nil
  | cons h rest ih =>
    obtain ⟨leads, chain⟩ := List.isChain_cons.1 chain
    rw [← List.singleton_append, withDetour_append, List.isChain_append]
    refine ⟨?_, ih chain fun h' listed => old h' (List.mem_cons_of_mem h listed), ?_⟩
    · rw [withDetour_singleton]
      split
      · next same => exact same ▸ detoured.through.isChain
      · exact .singleton h
    · -- The next instruction is entered where it is entered in a path.
      intro h₁ last h₂ first
      rw [getLast?_withDetour] at last
      cases last
      rw [head?_withDetour] at first
      obtain ⟨h', next, rfl⟩ := Option.map_eq_some_iff.1 first
      exact (detoured.leads h (old h List.mem_cons_self) _).2 ⟨h', leads h' next, rfl⟩

theorem isPath_withDetour (isPath : b.IsPath path) : b'.IsPath (withDetour exit run path) := by
  have old := isPath.mem_handles
  obtain ⟨⟨first, head, start⟩, chain⟩ := isPath
  refine ⟨⟨entering exit run first, ?_, ?_⟩, detoured.isChain_withDetour chain old⟩
  · rw [detoured.starts, head]
    rfl
  · rw [head?_withDetour, start]
    rfl

/-- From the end of a path of the first body, a path of the second one goes on to the next
instruction, or into the run. -/
theorem onDetour_entering (isPath : b.IsPath (path ++ [h])) :
    b.OnDetour exit run (withDetour exit run path ++ [entering exit run h]) := by
  unfold entering
  split
  · next same =>
    subst same
    cases run with
    | nil =>
      have arrived : b.OnDetour h [] _ := .arrived isPath
      rw [withDetour_append, withDetour_singleton, if_pos rfl] at arrived
      exact arrived
    | cons r rest => exact .within (k := 0) isPath (Nat.zero_lt_succ _)
  · next other =>
    have arrived : b.OnDetour exit run _ := .arrived isPath
    rw [withDetour_append, withDetour_singleton, if_neg other] at arrived
    exact arrived

theorem onDetour (isPath : b'.IsPath path') : b.OnDetour exit run path' := by
  induction path' using List.reverseRecOn with
  | nil => exact absurd rfl isPath.ne_nil
  | append_singleton path' h ih =>
    obtain ⟨rfl, first⟩ | ⟨before, last, ends, edge⟩ := isPath_concat.1 isPath
    · rw [detoured.starts] at first
      obtain ⟨start, head, rfl⟩ := Option.map_eq_some_iff.1 first
      have begun : b.IsPath ([] ++ [start]) := isPath_concat.2 (.inl ⟨rfl, head⟩)
      exact detoured.onDetour_entering begun
    · cases ih before with
      | @arrived path old =>
        rw [getLast?_withDetour] at ends
        have listed := old.mem_handles last (List.mem_of_getLast? ends)
        obtain ⟨h', step, rfl⟩ := (detoured.leads last listed h).1 edge
        exact detoured.onDetour_entering (isPath_concat.2 (.inr ⟨old, last, ends, step⟩))
      | @within path k old inside =>
        have here : run[k]? = some last := by
          rw [List.take_add_one, List.getElem?_eq_getElem inside, Option.toList_some,
            ← List.append_assoc, List.getLast?_concat] at ends
          rw [List.getElem?_eq_getElem inside, ends]
        have next := (detoured.through k last here h).1 edge
        by_cases more : k + 1 < run.length
        · rw [List.getElem?_append_left more] at next
          have further : b.OnDetour exit run _ := .within old more
          rw [List.take_add_one, next, Option.toList_some, ← List.append_assoc] at further
          exact further
        · -- The run is over, and the exit comes next.
          have whole : run.length = k + 1 := by omega
          rw [List.getElem?_append_right (by omega), whole, Nat.sub_self] at next
          cases next
          have arrived : b.OnDetour exit run _ := .arrived old
          rw [withDetour_append, withDetour_singleton, if_pos rfl, ← List.append_assoc] at arrived
          rw [← whole, List.take_length]
          exact arrived

/-- The paths are the beginnings of the paths of the first body with the detours. -/
theorem isPath_iff : b'.IsPath path' ↔
    path' ≠ [] ∧ ∃ path, b.IsPath path ∧ path' <+: withDetour exit run path := by
  constructor
  · intro isPath
    refine ⟨isPath.ne_nil, ?_⟩
    cases detoured.onDetour isPath with
    | @arrived path old => exact ⟨path, old, List.prefix_rfl⟩
    | @within path k old inside =>
      refine ⟨_, old, ?_⟩
      rw [withDetour_append, withDetour_singleton, if_pos rfl]
      exact (List.prefix_append_right_inj _).2
        ((List.take_prefix _ run).trans (List.prefix_append run _))
  · rintro ⟨filled, path, old, front⟩
    exact (detoured.isPath_withDetour old).of_front front filled

/-- A path that ends with an instruction of the first body is one of that body with the detours. -/
theorem exists_of_old (isPath : b'.IsPath path') (ends : path'.getLast? = some h)
    (old : h ∈ b.handles) : ∃ path, b.IsPath path ∧ path' = withDetour exit run path := by
  cases detoured.onDetour isPath with
  | @arrived path here => exact ⟨path, here, rfl⟩
  | @within path k _ inside =>
    rw [List.take_add_one, List.getElem?_eq_getElem inside, Option.toList_some,
      ← List.append_assoc, List.getLast?_concat] at ends
    cases ends
    exact absurd old (detoured.fresh _ (List.getElem_mem inside))

/-- One path has the same instructions of the first body as a path of that body and ends with the
same one: the one with the detours. -/
theorem eq_withDetour_iff (isPath : b.IsPath path) :
    b'.IsPath path' ∧ path'.filter (· ∈ b.handles) = path ∧ path'.getLast? = path.getLast? ↔
      path' = withDetour exit run path := by
  constructor
  · rintro ⟨isPath', same, ends⟩
    have filled : path.getLast?.isSome = true := List.getLast?_isSome.2 isPath.ne_nil
    obtain ⟨last, ends'⟩ := Option.isSome_iff_exists.1 filled
    have old := isPath.mem_handles last (List.mem_of_getLast? ends')
    obtain ⟨path₀, isPath₀, rfl⟩ := detoured.exists_of_old isPath' (ends.trans ends') old
    rw [← same, filter_withDetour detoured.fresh isPath₀.mem_handles]
  · rintro rfl
    exact ⟨detoured.isPath_withDetour isPath,
      filter_withDetour detoured.fresh isPath.mem_handles, getLast?_withDetour _ _ _⟩

/-- A path that ends with an instruction of the first body comes from one path of that body. -/
theorem existsUnique_of_old (isPath : b'.IsPath path') (ends : path'.getLast? = some h)
    (old : h ∈ b.handles) : ∃! path, b.IsPath path ∧ path' = withDetour exit run path := by
  obtain ⟨path, here, rfl⟩ := detoured.exists_of_old isPath ends old
  refine ⟨path, ⟨here, rfl⟩, fun path₁ ⟨here₁, same⟩ => ?_⟩
  rw [← filter_withDetour detoured.fresh here₁.mem_handles, ← same,
    filter_withDetour detoured.fresh here.mem_handles]

end Detoured

end Body

end ReleaseWeaver
