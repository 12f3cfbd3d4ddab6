import ReleaseWeaver.Proofs.Code.Redirection
import ReleaseWeaver.Proofs.Weave.Scope

/-
  What the passes put into a body, told as one change of its lines: a run in front of them, a run
  after each handle call, and a run before the final exit, to whose head the branches to that exit
  lead. The new lines are numbered in this order. Main statement: the changes that the passes make
  one after the other, each at a place that it looks up for itself, come to this one change.
-/

namespace ReleaseWeaver

namespace Lines

/-- Instructions under the numbers from `start + 1` on. -/
def numbered (start : Nat) (run : List Instr) : List (Handle × Instr) :=
  (Handle.series start run.length).zip run

/-- The lines with a run after each of some of them. -/
def withAfterEach (site : Instr → Bool) (run : List Instr) :
    Nat → List (Handle × Instr) → List (Handle × Instr)
  | _, [] => []
  | start, l :: rest =>
    if site l.2 then
      l :: (numbered start run ++ withAfterEach site run (start + run.length) rest)
    else l :: withAfterEach site run start rest

/-- The lines with a run before the final `ret`; the branches to that `ret` lead to the run. -/
def withBeforeExit (run : List Instr) (start : Nat) (lines : List (Handle × Instr)) :
    List (Handle × Instr) :=
  match lines.getLast?, run with
  | some (exit, .ret), _ :: _ =>
    lines.dropLast.map (fun l => (l.1, l.2.redirect exit (.nth (start + 1))))
      ++ (numbered start run ++ [(exit, .ret)])
  | _, _ => lines

end Lines

/-- What goes into a body: a run in front of it, a run after each handle call, and a run before
its final exit. -/
structure Insertions where
  front : List Instr := []
  after : List Instr := []
  last : List Instr := []

namespace Insertions

/-- Everything that goes in. -/
def all (e : Insertions) : List Instr := e.front ++ (e.after ++ e.last)

/-- The lines with the insertions made. -/
def applied (e : Insertions) (site : Instr → Bool) (lines : List (Handle × Instr)) :
    List (Handle × Instr) :=
  let fronted := Lines.numbered lines.length e.front ++ lines
  let registered := Lines.withAfterEach site e.after fronted.length fronted
  Lines.withBeforeExit e.last registered.length registered

end Insertions

/-! ## Runs and branches -/

namespace Instr

variable {source goal : Handle} {i : Instr}

theorem invoked?_redirect (i : Instr) (source goal : Handle) :
    (i.redirect source goal).invoked? = i.invoked? := by
  cases i <;> rfl

theorem isHandleCall_redirect (contract : TypeRef) (fragment : String) (i : Instr)
    (source goal : Handle) :
    (i.redirect source goal).isHandleCall contract fragment = i.isHandleCall contract fragment := by
  rw [isHandleCall, isHandleCall, invoked?_redirect]

end Instr

namespace Lines

variable {run run' : List Instr} {start : Nat} {lines : List (Handle × Instr)} {exit : Handle}
  {site : Instr → Bool}

theorem length_numbered (start : Nat) (run : List Instr) :
    (numbered start run).length = run.length := by
  rw [numbered, List.length_zip, Handle.length_series, Nat.min_self]

theorem snd_mem_of_mem_numbered {l : Handle × Instr} (listed : l ∈ numbered start run) :
    l.2 ∈ run := (List.of_mem_zip listed).2

theorem numbered_append (start : Nat) (run run' : List Instr) :
    numbered start (run ++ run') = numbered start run ++ numbered (start + run.length) run' := by
  rw [numbered, List.length_append, ← Handle.series_append, List.zip_append]
  · rfl
  · rw [Handle.length_series]

theorem map_redirect_numbered (straight : ∀ i ∈ run, i.target? = none) (start : Nat)
    (source goal : Handle) :
    (numbered start run).map (fun l => (l.1, l.2.redirect source goal)) = numbered start run := by
  conv_rhs => rw [← List.map_id (numbered start run)]
  refine List.map_congr_left fun l listed => ?_
  rw [Instr.redirect_of_target?_none (straight l.2 (snd_mem_of_mem_numbered listed))]
  rfl

/-! ## Before the final exit -/

theorem withBeforeExit_nil (start : Nat) (lines : List (Handle × Instr)) :
    withBeforeExit [] start lines = lines := by
  unfold withBeforeExit
  split <;> first | rfl | contradiction

theorem withBeforeExit_of_unclosed (unclosed : ∀ exit, lines.getLast? ≠ some (exit, .ret)) :
    withBeforeExit run start lines = lines := by
  unfold withBeforeExit
  split
  · next exit _ _ last => exact absurd last (unclosed exit)
  · rfl

theorem withBeforeExit_concat (filled : run ≠ []) (init : List (Handle × Instr)) :
    withBeforeExit run start (init ++ [(exit, .ret)]) =
      init.map (fun l => (l.1, l.2.redirect exit (.nth (start + 1))))
        ++ (numbered start run ++ [(exit, .ret)]) := by
  obtain ⟨i, rest, rfl⟩ := List.exists_cons_of_ne_nil filled
  unfold withBeforeExit
  rw [List.getLast?_concat, List.dropLast_concat]

/-- Two runs put in one after the other are one run. -/
theorem withBeforeExit_append (straight : ∀ i ∈ run, i.target? = none)
    (apart : ∀ exit, lines.getLast? = some (exit, .ret) → exit ≠ .nth (start + 1)) :
    withBeforeExit run' (start + run.length) (withBeforeExit run start lines) =
      withBeforeExit (run ++ run') start lines := by
  by_cases filled : run = []
  · rw [filled, withBeforeExit_nil, List.nil_append]
    rfl
  by_cases closed : ∃ exit, lines.getLast? = some (exit, .ret)
  · obtain ⟨exit, last⟩ := closed
    obtain ⟨init, rfl⟩ : ∃ init, lines = init ++ [(exit, .ret)] := List.getLast?_eq_some_iff.1 last
    have goal : .nth (start + 1) ≠ exit := (apart exit last).symm
    by_cases filled' : run' = []
    · rw [filled', withBeforeExit_nil, List.append_nil]
    have both : run ++ run' ≠ [] := List.append_ne_nil_of_left_ne_nil filled run'
    have once (i : Instr) (goal' : Handle) :
        (i.redirect exit (.nth (start + 1))).redirect exit goal' =
          i.redirect exit (.nth (start + 1)) := Instr.redirect_redirect goal goal'
    rw [withBeforeExit_concat filled, ← List.append_assoc, withBeforeExit_concat filled',
      withBeforeExit_concat both, List.map_append, map_redirect_numbered straight, List.map_map,
      numbered_append]
    simp only [Function.comp_def, once, List.append_assoc]
  · have unclosed : ∀ exit, lines.getLast? ≠ some (exit, .ret) := fun exit last => closed ⟨exit, last⟩
    rw [withBeforeExit_of_unclosed unclosed, withBeforeExit_of_unclosed unclosed,
      withBeforeExit_of_unclosed unclosed]

/-- A line is one of the run, or one of the lines, redirected or not. -/
theorem mem_withBeforeExit {l : Handle × Instr} (listed : l ∈ withBeforeExit run start lines) :
    l.2 ∈ run ∨ ∃ l' ∈ lines, l.1 = l'.1 ∧
      (l.2 = l'.2 ∨ ∃ exit, l.2 = l'.2.redirect exit (.nth (start + 1))) := by
  unfold withBeforeExit at listed
  split at listed
  · next exit i rest last =>
    obtain ⟨init, rfl⟩ : ∃ init, lines = init ++ [(exit, .ret)] := List.getLast?_eq_some_iff.1 last
    rw [List.dropLast_concat] at listed
    obtain old | rest := List.mem_append.1 listed
    · obtain ⟨l', listed', rfl⟩ := List.mem_map.1 old
      exact .inr ⟨l', List.mem_append_left _ listed', rfl, .inr ⟨exit, rfl⟩⟩
    · obtain new | exits := List.mem_append.1 rest
      · exact .inl (snd_mem_of_mem_numbered new)
      · exact .inr ⟨l, List.mem_append_right _ exits, rfl, .inl rfl⟩
  · exact .inr ⟨l, listed, rfl, .inl rfl⟩

/-- Straight lines in front stay in front. -/
theorem withBeforeExit_append_straight {head : List (Handle × Instr)}
    (straight : ∀ l ∈ head, l.2.Straight) (start : Nat) (lines : List (Handle × Instr)) :
    withBeforeExit run start (head ++ lines) = head ++ withBeforeExit run start lines := by
  by_cases filled : run = []
  · rw [filled, withBeforeExit_nil, withBeforeExit_nil]
  obtain rfl | ⟨init, last, rfl⟩ := List.eq_nil_or_concat lines
  · rw [List.append_nil]
    have unclosed : ∀ exit, head.getLast? ≠ some (exit, .ret) := fun exit last => by
      cases (straight _ (List.mem_of_getLast? last)).notRet
    rw [withBeforeExit_of_unclosed unclosed]
    exact (List.append_nil head).symm
  · rw [List.concat_eq_append, ← List.append_assoc]
    by_cases closes : ∃ exit, last = (exit, .ret)
    · obtain ⟨exit, rfl⟩ := closes
      have kept : head.map (fun l => (l.1, l.2.redirect exit (.nth (start + 1)))) = head := by
        conv_rhs => rw [← List.map_id head]
        refine List.map_congr_left fun l listed => ?_
        rw [Instr.redirect_of_target?_none (straight l listed).target]
        rfl
      rw [withBeforeExit_concat filled, withBeforeExit_concat filled, List.map_append, kept,
        List.append_assoc]
    · have unclosed (all : List (Handle × Instr)) :
          ∀ exit, (all ++ [last]).getLast? ≠ some (exit, .ret) := fun exit ends => by
        rw [List.getLast?_concat] at ends
        exact closes ⟨exit, Option.some.inj ends⟩
      rw [withBeforeExit_of_unclosed (unclosed _), withBeforeExit_of_unclosed (unclosed _),
        List.append_assoc]

/-! ## After some lines -/

theorem mem_withAfterEach {l : Handle × Instr} (listed : l ∈ withAfterEach site run start lines) :
    l ∈ lines ∨ l.2 ∈ run := by
  induction lines generalizing start with
  | nil => cases listed
  | cons first rest ih =>
    unfold withAfterEach at listed
    split at listed
    · obtain rfl | listed := List.mem_cons.1 listed
      · exact .inl List.mem_cons_self
      · obtain new | later := List.mem_append.1 listed
        · exact .inr (snd_mem_of_mem_numbered new)
        · exact (ih later).imp_left (List.mem_cons_of_mem first)
    · obtain rfl | later := List.mem_cons.1 listed
      · exact .inl List.mem_cons_self
      · exact (ih later).imp_left (List.mem_cons_of_mem first)

theorem length_le_withAfterEach (site : Instr → Bool) (run : List Instr) (start : Nat)
    (lines : List (Handle × Instr)) : lines.length ≤ (withAfterEach site run start lines).length := by
  induction lines generalizing start with
  | nil => exact Nat.le_refl _
  | cons first rest ih =>
    unfold withAfterEach
    split
    · rw [List.length_cons, List.length_cons, List.length_append]
      have := ih (start + run.length)
      omega
    · exact Nat.succ_le_succ (ih start)

/-- Lines without a match stay in front. -/
theorem withAfterEach_append_silent {head : List (Handle × Instr)}
    (silent : ∀ l ∈ head, site l.2 = false) (start : Nat) (lines : List (Handle × Instr)) :
    withAfterEach site run start (head ++ lines) = head ++ withAfterEach site run start lines := by
  induction head with
  | nil => rfl
  | cons first rest ih =>
    obtain ⟨none, silent'⟩ := List.forall_mem_cons.1 silent
    rw [List.cons_append, withAfterEach, if_neg (by rw [none]; exact Bool.false_ne_true),
      ih silent', List.cons_append]

/-- A last line without a match stays the last. -/
theorem withAfterEach_concat {last : Handle × Instr} (silent : site last.2 = false) (start : Nat)
    (lines : List (Handle × Instr)) : withAfterEach site run start (lines ++ [last]) =
      withAfterEach site run start lines ++ [last] := by
  induction lines generalizing start with
  | nil =>
    simp only [List.nil_append, withAfterEach, silent, Bool.false_eq_true, if_false]
  | cons first rest ih =>
    rw [List.cons_append, withAfterEach, withAfterEach]
    split
    · rw [ih, List.cons_append, List.append_assoc]
    · rw [ih, List.cons_append]

/-! ## What a scan finds -/

section Scan

variable (silent : ∀ i ∈ run, site i = false)

include silent

theorem filter_numbered (start : Nat) :
    (numbered start run).filter (fun l => site l.2) = [] := by
  refine List.filter_eq_nil_iff.2 fun l listed => ?_
  rw [silent l.2 (snd_mem_of_mem_numbered listed)]
  exact Bool.false_ne_true

theorem filter_withAfterEach (start : Nat) (lines : List (Handle × Instr)) :
    (withAfterEach site run start lines).filter (fun l => site l.2) =
      lines.filter fun l => site l.2 := by
  induction lines generalizing start with
  | nil => rfl
  | cons l rest ih =>
    unfold withAfterEach
    split
    · rw [List.filter_cons, List.filter_cons, List.filter_append, filter_numbered silent, ih,
        List.nil_append]
    · rw [List.filter_cons, List.filter_cons, ih]

theorem scan_withBeforeExit (same : ∀ i source goal, site (i.redirect source goal) = site i)
    (ret : site .ret = false) (start : Nat) (lines : List (Handle × Instr)) :
    ((withBeforeExit run start lines).filter (fun l => site l.2)).map Prod.fst =
      (lines.filter fun l => site l.2).map Prod.fst := by
  unfold withBeforeExit
  split
  · next exit i rest last =>
    obtain ⟨init, rfl⟩ : ∃ init, lines = init ++ [(exit, .ret)] := List.getLast?_eq_some_iff.1 last
    have none : [(exit, Instr.ret)].filter (fun l => site l.2) = [] := by
      simp [ret]
    rw [List.dropLast_concat, List.filter_append, List.filter_append, List.filter_append,
      filter_numbered silent, none, List.append_nil, List.append_nil, List.append_nil,
      List.filter_map, List.map_map]
    simp only [Function.comp_def, same]
  · rfl

end Scan

end Lines

/-- A scan of the lines with the insertions finds what a scan of the lines finds, if nothing that
goes in is a match. -/
theorem Insertions.scan_applied {e : Insertions} {site : Instr → Bool}
    (silent : ∀ i ∈ e.all, site i = false)
    (same : ∀ i source goal, site (i.redirect source goal) = site i) (ret : site .ret = false)
    (lines : List (Handle × Instr)) :
    ((e.applied site lines).filter fun l => site l.2).map Prod.fst =
      (lines.filter fun l => site l.2).map Prod.fst := by
  have front : ∀ i ∈ e.front, site i = false := fun i listed =>
    silent i (List.mem_append_left _ listed)
  have after : ∀ i ∈ e.after, site i = false := fun i listed =>
    silent i (List.mem_append_right _ (List.mem_append_left _ listed))
  have last : ∀ i ∈ e.last, site i = false := fun i listed =>
    silent i (List.mem_append_right _ (List.mem_append_right _ listed))
  rw [applied, Lines.scan_withBeforeExit last same ret, Lines.filter_withAfterEach after,
    List.filter_append, Lines.filter_numbered front, List.nil_append]

/-- What stands in the lines with the insertions has gone in, or stood under its name before,
redirected or not. -/
theorem Insertions.mem_applied {e : Insertions} {site : Instr → Bool}
    {lines : List (Handle × Instr)} {l : Handle × Instr} (listed : l ∈ e.applied site lines) :
    ∃ i, (i ∈ e.all ∨ (l.1, i) ∈ lines) ∧
      (l.2 = i ∨ ∃ source goal, l.2 = i.redirect source goal) := by
  obtain last | ⟨l', inside, named, same⟩ := Lines.mem_withBeforeExit listed
  · exact ⟨l.2, .inl (List.mem_append_right _ (List.mem_append_right _ last)), .inl rfl⟩
  refine ⟨l'.2, ?_, same.imp_right fun ⟨exit, same⟩ => ⟨exit, _, same⟩⟩
  obtain before | after := Lines.mem_withAfterEach inside
  · obtain front | old := List.mem_append.1 before
    · exact .inl (List.mem_append_left _ (Lines.snd_mem_of_mem_numbered front))
    · exact .inr (named ▸ old)
  · exact .inl (List.mem_append_right _ (List.mem_append_left _ after))

/-- A straight run in front of a body stays in front. -/
theorem Insertions.applied_front {e : Insertions} {site : Instr → Bool}
    (straight : ∀ i ∈ e.front, i.Straight) (silent : ∀ i ∈ e.front, site i = false)
    (lines : List (Handle × Instr)) :
    ∃ start stop, lines.length + e.front.length ≤ stop ∧ e.applied site lines =
      Lines.numbered lines.length e.front ++
        Lines.withBeforeExit e.last stop (Lines.withAfterEach site e.after start lines) := by
  obtain ⟨start, fronted⟩ :
      ∃ start, start = (Lines.numbered lines.length e.front ++ lines).length := ⟨_, rfl⟩
  have grows := Lines.length_le_withAfterEach site e.after start
    (Lines.numbered lines.length e.front ++ lines)
  refine ⟨start, (Lines.withAfterEach site e.after start
    (Lines.numbered lines.length e.front ++ lines)).length, ?_, ?_⟩
  · rw [List.length_append, Lines.length_numbered] at grows
    omega
  · rw [applied, ← fronted, Lines.withAfterEach_append_silent fun l listed =>
        silent l.2 (Lines.snd_mem_of_mem_numbered listed),
      Lines.withBeforeExit_append_straight fun l listed =>
        straight l.2 (Lines.snd_mem_of_mem_numbered listed)]

/-- Lines that end in a `ret` get the last run right before it, and a branch in front of the run
leads to its head, or where an original branch leads that is not redirected. -/
theorem Insertions.applied_of_closed {e : Insertions} (site : Instr → Bool)
    (straight : ∀ i ∈ e.all, i.target? = none) (ret : site .ret = false) {exit : Handle}
    {lines : List (Handle × Instr)} (closed : lines.getLast? = some (exit, .ret)) :
    ∃ before, e.applied site lines =
        before ++ (Lines.numbered (before.length + 1) e.last ++ [(exit, .ret)]) ∧
      lines.length ≤ before.length + 1 ∧
      ∀ l ∈ before, ∀ t, l.2.target? = some t →
        t = .nth (before.length + 2) ∧ e.last ≠ [] ∨
          ∃ l' ∈ lines, l'.2.target? = some t ∧ (t = exit → e.last = []) := by
  obtain ⟨init, rfl⟩ : ∃ init, lines = init ++ [(exit, .ret)] := List.getLast?_eq_some_iff.1 closed
  obtain ⟨front, rest⟩ := List.forall_mem_append.1 straight
  obtain ⟨after, _⟩ := List.forall_mem_append.1 rest
  obtain ⟨start, fronted⟩ : ∃ start, start = (Lines.numbered (init ++ [(exit, Instr.ret)]).length
    e.front ++ (init ++ [(exit, Instr.ret)])).length := ⟨_, rfl⟩
  obtain ⟨middle, same⟩ : ∃ middle, middle = Lines.withAfterEach site e.after start
    (Lines.numbered (init ++ [(exit, Instr.ret)]).length e.front ++ init) := ⟨_, rfl⟩
  have applied : e.applied site (init ++ [(exit, .ret)]) =
      Lines.withBeforeExit e.last (middle.length + 1) (middle ++ [(exit, .ret)]) := by
    rw [Insertions.applied, ← fronted, ← List.append_assoc, Lines.withAfterEach_concat ret, ← same,
      List.length_append, List.length_singleton]
  have length : (init ++ [(exit, Instr.ret)]).length ≤ middle.length + 1 := by
    have grows := Lines.length_le_withAfterEach site e.after start
      (Lines.numbered (init ++ [(exit, Instr.ret)]).length e.front ++ init)
    rw [← same, List.length_append] at grows
    rw [List.length_append, List.length_singleton]
    omega
  have old : ∀ l ∈ middle, ∀ t, l.2.target? = some t →
      ∃ l' ∈ init ++ [(exit, Instr.ret)], l'.2.target? = some t := by
    intro l listed t target
    rw [same] at listed
    obtain listed | new := Lines.mem_withAfterEach listed
    · obtain new | listed := List.mem_append.1 listed
      · rw [front l.2 (Lines.snd_mem_of_mem_numbered new)] at target
        cases target
      · exact ⟨l, List.mem_append_left _ listed, target⟩
    · rw [after l.2 new] at target
      cases target
  by_cases empty : e.last = []
  · refine ⟨middle, ?_, length, fun l listed t target => ?_⟩
    · rw [applied, empty, Lines.withBeforeExit_nil]
      rfl
    · obtain ⟨l', listed', target'⟩ := old l listed t target
      exact .inr ⟨l', listed', target', fun _ => empty⟩
  · refine ⟨middle.map fun l => (l.1, l.2.redirect exit (.nth (middle.length + 2))), ?_, ?_, ?_⟩
    · rw [applied, Lines.withBeforeExit_concat empty, List.length_map]
    · rw [List.length_map]
      exact length
    · intro l listed t target
      obtain ⟨l₀, listed₀, rfl⟩ := List.mem_map.1 listed
      dsimp only at target
      rw [Instr.target?_redirect] at target
      obtain ⟨t₀, target₀, rfl⟩ := Option.map_eq_some_iff.1 target
      rw [List.length_map]
      by_cases redirected : t₀ = exit
      · exact .inl ⟨if_pos redirected, empty⟩
      · rw [if_neg redirected]
        obtain ⟨l', listed', target'⟩ := old l₀ listed₀ t₀ target₀
        exact .inr ⟨l', listed', target', fun same => absurd same redirected⟩

/-! ## The changes of a body -/

namespace Body

variable {b : Body} {run run' : List Instr}

theorem ext_lines {b b' : Body} (lines : b.lines = b'.lines) (locals : b.locals = b'.locals) :
    b = b' := by
  obtain ⟨_, _, _⟩ := b
  obtain ⟨_, _, _⟩ := b'
  cases lines
  cases locals
  rfl

theorem lines_insertAt_zero (b : Body) (run : List Instr) :
    (b.insertAt 0 run).lines = Lines.numbered b.length run ++ b.lines := by
  rw [lines_insertAt, List.take_zero, List.drop_zero, List.nil_append]
  rfl

theorem released_nil (b : Body) : b.released [] = b := by
  cases final : b.finalExit? with
  | none => rw [released, final]
  | some exit =>
    obtain ⟨p, found⟩ := position?_isSome.2 (mem_handles_of_finalExit? final)
    have result : b.released [] = b.insertAt p [] := by
      simp [released, final, insertBeforeRetargeting, insertBefore, found, nextHandles,
        Handle.series]
    rw [result]
    refine ext_lines ?_ rfl
    rw [lines_insertAt]
    exact List.take_append_drop p b.lines

theorem retargetLine_eq {source goal : Handle} {l : Handle × Instr} (other : l.1 ≠ goal) :
    retargetLine source goal l = (l.1, l.2.redirect source goal) := by
  obtain ⟨h, i⟩ := l
  cases i with
  | branch on target =>
    by_cases same : target = source
    · simp [retargetLine, isRetargeted, Instr.target?, Instr.redirect, Instr.withTarget, same,
        show h ≠ goal from other]
    · simp [retargetLine, isRetargeted, Instr.target?, Instr.redirect, same]
  | _ => simp [retargetLine, isRetargeted, Instr.target?, Instr.redirect]

theorem map_retargetLine_lines (b : Body) (source : Handle) :
    b.lines.map (retargetLine source (.nth (b.length + 1))) =
      b.lines.map fun l => (l.1, l.2.redirect source (.nth (b.length + 1))) := by
  refine List.map_congr_left fun l listed => retargetLine_eq fun same => ?_
  exact nth_not_mem_handles (b := b) 0 (same ▸ fst_mem_handles listed)

theorem map_retargetLine_fresh (straight : ∀ i ∈ run, i.target? = none) (b : Body)
    (source goal : Handle) : (b.fresh run).map (retargetLine source goal) = b.fresh run := by
  conv_rhs => rw [← List.map_id (b.fresh run)]
  refine List.map_congr_left fun l listed => ?_
  simp [retargetLine, isRetargeted, straight l.2 (snd_mem_of_mem_fresh listed)]

theorem lines_released (straight : ∀ i ∈ run, i.target? = none) (b : Body) :
    (b.released run).lines = Lines.withBeforeExit run b.length b.lines := by
  cases run with
  | nil => rw [released_nil, Lines.withBeforeExit_nil]
  | cons i rest =>
    cases final : b.finalExit? with
    | none =>
      rw [released, final]
      refine (Lines.withBeforeExit_of_unclosed fun exit last => ?_).symm
      rw [finalExit?_eq_some.2 last] at final
      cases final
    | some exit =>
      obtain ⟨p, found, bound, _, result⟩ := released_eq i rest final
      obtain ⟨init, lines⟩ : ∃ init, b.lines = init ++ [(exit, .ret)] :=
        List.getLast?_eq_some_iff.1 (finalExit?_eq_some.1 final)
      have count : p = init.length := by
        have all := congrArg List.length lines
        rw [List.length_append, List.length_singleton] at all
        omega
      have redirected := map_retargetLine_lines b exit
      rw [lines, List.map_append, List.map_append] at redirected
      obtain ⟨first, second⟩ := List.append_inj redirected (by simp)
      rw [result, lines_retarget, lines_insertAt, lines, count, List.take_left, List.drop_left,
        List.map_append, List.map_append, first, second, map_retargetLine_fresh straight,
        Lines.withBeforeExit_concat (List.cons_ne_nil i rest)]
      rfl

theorem locals_released (run : List Instr) (b : Body) : (b.released run).locals = b.locals := by
  cases final : b.finalExit? with
  | none => rw [released, final]
  | some exit =>
    cases run with
    | nil => rw [released_nil]
    | cons i rest =>
      obtain ⟨_, _, _, _, result⟩ := released_eq i rest final
      rw [result]
      rfl

theorem length_released {exit : Handle} (final : b.finalExit? = some exit) (run : List Instr) :
    (b.released run).length = b.length + run.length := by
  cases run with
  | nil =>
    rw [released_nil]
    rfl
  | cons i rest =>
    obtain ⟨p, _, _, _, result⟩ := released_eq i rest final
    rw [result, length, lines_retarget, List.length_map]
    exact length_insertAt b p (i :: rest)

/-- Two releases one after the other are one. -/
theorem released_append (straight : ∀ i ∈ run, i.target? = none)
    (straight' : ∀ i ∈ run', i.target? = none) (b : Body) :
    (b.released run).released run' = b.released (run ++ run') := by
  cases final : b.finalExit? with
  | none =>
    have idle (run : List Instr) : b.released run = b := by rw [released, final]
    rw [idle, idle, idle]
  | some exit =>
    have both : ∀ i ∈ run ++ run', i.target? = none := fun i listed =>
      (List.mem_append.1 listed).elim (straight i) (straight' i)
    refine ext_lines ?_ (by rw [locals_released, locals_released, locals_released])
    rw [lines_released straight', lines_released straight, lines_released both,
      length_released final, Lines.withBeforeExit_append straight]
    intro exit' last
    rw [← finalExit?_eq_some, final] at last
    cases last
    rintro rfl
    exact nth_not_mem_handles (b := b) 0 (mem_handles_of_finalExit? final)

/-! ## After each handle call -/

/-- The handle calls one by one: what is before the line in turn is done already. -/
theorem lines_insertAfterEach (site : Instr → Bool) {done rest : List (Handle × Instr)}
    (lines : b.lines = done ++ rest) :
    (insertAfterEach run ((rest.filter fun l => site l.2).map Prod.fst) b).1.lines =
      done ++ Lines.withAfterEach site run b.length rest := by
  induction rest generalizing b done with
  | nil => exact lines
  | cons l rest ih =>
    by_cases here : site l.2 = true
    · have found : b.position? l.1 = some done.length := by
        refine position?_eq_some.2 ⟨l.2, ?_⟩
        rw [lines, List.getElem?_append_right (Nat.le_refl _), Nat.sub_self]
        rfl
      have next : (b.insertAt (done.length + 1) run).lines =
          (done ++ l :: Lines.numbered b.length run) ++ rest := by
        have split : b.lines = (done ++ [l]) ++ rest := by
          rw [lines, List.append_assoc]
          rfl
        have count : done.length + 1 = (done ++ [l]).length := by
          rw [List.length_append, List.length_singleton]
        rw [lines_insertAt, split, count, List.take_left, List.drop_left, List.append_assoc,
          List.append_assoc]
        rfl
      rw [List.filter_cons_of_pos (by exact here), List.map_cons, insertAfterEach, insertAfter,
        found]
      dsimp only
      rw [ih next, length_insertAt, Lines.withAfterEach, if_pos here, List.append_assoc]
      rfl
    · have next : b.lines = (done ++ [l]) ++ rest := by
        rw [lines, List.append_assoc]
        rfl
      rw [List.filter_cons_of_neg (by exact here), ih next, Lines.withAfterEach, if_neg here,
        List.append_assoc]
      rfl

/-! ## All changes of a body -/

theorem insertAt_nil (b : Body) (p : Nat) : b.insertAt p [] = b :=
  ext_lines (List.take_append_drop p b.lines) rfl

theorem insertAfterEach_nil (calls : List Handle) (b : Body) : (insertAfterEach [] calls b).1 = b := by
  induction calls generalizing b with
  | nil => rfl
  | cons h rest ih =>
    unfold insertAfterEach insertAfter
    cases b.position? h with
    | none => rfl
    | some p =>
      dsimp only
      rw [insertAt_nil, ih]

/-- The body with its front, its registrations and its releases. -/
def rewritten (c : WeaveContext) (e : Insertions) (b : Body) : Body :=
  ((insertAfterEach e.after
    ((b.insertAt 0 e.front).handleCalls c.collaborators.contract c.config.handleCallFragment)
    (b.insertAt 0 e.front)).1).released e.last

theorem locals_insertAfterEach (run : List Instr) (calls : List Handle) (b : Body) :
    (insertAfterEach run calls b).1.locals = b.locals :=
  insertAfterEach_induction (fun b' => b'.locals = b.locals) rfl fun _ _ _ same _ _ => same

theorem locals_rewritten (c : WeaveContext) (e : Insertions) (b : Body) :
    (b.rewritten c e).locals = b.locals := by
  rw [rewritten, locals_released, locals_insertAfterEach]
  rfl

theorem lines_rewritten (c : WeaveContext) {e : Insertions}
    (straight : ∀ i ∈ e.last, i.target? = none) (b : Body) :
    (b.rewritten c e).lines = e.applied
      (Instr.isHandleCall c.collaborators.contract c.config.handleCallFragment) b.lines := by
  have registered : (insertAfterEach e.after
      ((b.insertAt 0 e.front).handleCalls c.collaborators.contract c.config.handleCallFragment)
      (b.insertAt 0 e.front)).1.lines = Lines.withAfterEach
        (Instr.isHandleCall c.collaborators.contract c.config.handleCallFragment) e.after
        (Lines.numbered b.lines.length e.front ++ b.lines).length
        (Lines.numbered b.lines.length e.front ++ b.lines) := by
    have front : (b.insertAt 0 e.front).lines = Lines.numbered b.lines.length e.front ++ b.lines :=
      lines_insertAt_zero b e.front
    rw [handleCalls, ← front, ← List.nil_append (Lines.withAfterEach _ _ _ _)]
    exact lines_insertAfterEach (Instr.isHandleCall _ _) (List.nil_append _).symm
  rw [rewritten, lines_released straight, length, registered]
  rfl

/-- A branch to the final exit leads to the release. -/
example : ({ last := [.ldthis, .pop] } : Insertions).applied (fun _ => false)
      [(.nth 1, .branch .always (.nth 2)), (.nth 2, .ret)] =
    [(.nth 1, .branch .always (.nth 3)), (.nth 3, .ldthis), (.nth 4, .pop), (.nth 2, .ret)] := rfl

end Body

namespace MethodDef

/-- The method with the insertions made in its body. -/
def rewritten (c : WeaveContext) (e : Insertions) (d : MethodDef) : MethodDef :=
  { d with body := d.body.map (Body.rewritten c e) }

theorem rewritten_nil (c : WeaveContext) (d : MethodDef) : d.rewritten c {} = d := by
  have idle : Body.rewritten c {} = id := by
    funext b
    rw [Body.rewritten, Body.insertAfterEach_nil, Body.insertAt_nil, Body.released_nil]
    rfl
  rw [rewritten, idle, Option.map_id]
  rfl

theorem withPrologue_eq (c : WeaveContext) (run : List Instr) (d : MethodDef) :
    d.withPrologue run = d.rewritten c { front := if d.takesPrologue then run else [] } := by
  unfold withPrologue
  split
  · rw [rewritten]
    congr 2
    funext b
    rw [Body.rewritten, Body.insertAfterEach_nil, Body.released_nil]
  · exact (rewritten_nil c d).symm

theorem registered_rewritten (c : WeaveContext) (field : FieldRef) (front : List Instr)
    (d : MethodDef) : (d.rewritten c { front }).registered c field =
      d.rewritten c { front, after := registration field c.collaborators.helper } := by
  rw [registered, rewritten, rewritten]
  dsimp only
  rw [Option.map_map]
  congr 2
  funext b
  rw [Function.comp_apply, Body.rewritten, Body.rewritten, Body.insertAfterEach_nil,
    Body.released_nil, Body.released_nil]
  rfl

theorem released_rewritten (c : WeaveContext) {e : Insertions} {run : List Instr}
    (straight : ∀ i ∈ e.last, i.target? = none) (straight' : ∀ i ∈ run, i.target? = none)
    (d : MethodDef) : (d.rewritten c e).released run =
      d.rewritten c { e with last := e.last ++ run } := by
  rw [released, rewritten, rewritten]
  dsimp only
  rw [Option.map_map]
  congr 2
  funext b
  exact Body.released_append straight straight' _

/-- The lines of the body. -/
def lines? (d : MethodDef) : Option (List (Handle × Instr)) := d.body.map Body.lines

/-- All of a method but the lines of its body. -/
def shell (d : MethodDef) : MethodDef × Option (List TypeRef) :=
  ({ d with body := none }, d.body.map Body.locals)

theorem shell_rewritten (c : WeaveContext) (e : Insertions) (d : MethodDef) :
    (d.rewritten c e).shell = d.shell := by
  have locals : (d.rewritten c e).body.map Body.locals = d.body.map Body.locals := by
    rw [rewritten, Option.map_map]
    congr 1
    funext b
    exact Body.locals_rewritten c e b
  rw [shell, shell, locals]
  rfl

theorem lines?_rewritten (c : WeaveContext) {e : Insertions}
    (straight : ∀ i ∈ e.last, i.target? = none) (d : MethodDef) :
    (d.rewritten c e).lines? = d.lines?.map (e.applied
      (Instr.isHandleCall c.collaborators.contract c.config.handleCallFragment)) := by
  rw [lines?, rewritten, lines?, Option.map_map, Option.map_map]
  congr 1
  funext b
  exact Body.lines_rewritten c straight b

theorem isInstanceWithBody_rewritten (c : WeaveContext) (e : Insertions) (d : MethodDef) :
    (d.rewritten c e).isInstanceWithBody = d.isInstanceWithBody := by
  rw [isInstanceWithBody, isInstanceWithBody, hasBody, hasBody, rewritten, Option.isSome_map]
  rfl

/-- A scan of the method with the insertions finds the handle calls of the method. -/
theorem handleCalls_rewritten (c : WeaveContext) {e : Insertions}
    (straight : ∀ i ∈ e.last, i.target? = none) (silent : ∀ i ∈ e.all,
      i.isHandleCall c.collaborators.contract c.config.handleCallFragment = false)
    (d : MethodDef) : (d.rewritten c e).handleCalls c = d.handleCalls c := by
  rw [handleCalls, handleCalls, rewritten, Option.map_map]
  congr 2
  funext b
  have scan := Insertions.scan_applied silent (Instr.isHandleCall_redirect _ _) rfl b.lines
  rw [← Body.lines_rewritten c straight] at scan
  exact scan

end MethodDef

end ReleaseWeaver
