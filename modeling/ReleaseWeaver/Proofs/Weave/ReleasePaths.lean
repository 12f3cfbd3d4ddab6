import ReleaseWeaver.Proofs.Code.Paths
import ReleaseWeaver.Proofs.Tracking.Roles
import ReleaseWeaver.Proofs.Weave.Insertions
import ReleaseWeaver.Proofs.Weave.Plans

/-
  Releases and paths. However often a teardown gets another release, each arrival at its final exit
  comes through all of the runs, in the order in which they were put in, and otherwise its paths
  are what they were. The releases one after the other come to one release of all the runs, so the
  induction is on the number of releases once, and on the path once.
-/

namespace ReleaseWeaver

namespace Body

variable {b : Body} {exit h : Handle} {run : List Instr} {init : List (Handle × Instr)} {p : Nat}

/-- Where a branch to the exit leads once a run is before it. -/
abbrev releaseHead (b : Body) (exit : Handle) (run : List Instr) : Handle :=
  (b.nextHandles run.length).headD exit

theorem handles_of_final (lines : b.lines = init ++ [(exit, .ret)]) :
    b.handles = init.map Prod.fst ++ [exit] := by
  rw [handles, lines, List.map_append]
  rfl

section Released

variable (straight : ∀ i ∈ run, i.target? = none) (lines : b.lines = init ++ [(exit, .ret)])

include straight lines

theorem lines_released_concat : (b.released run).lines =
    init.map (fun l => (l.1, l.2.redirect exit (b.releaseHead exit run)))
      ++ (b.fresh run ++ [(exit, .ret)]) := by
  rw [lines_released straight, lines]
  by_cases filled : run = []
  · have same : init.map (fun l => (l.1, l.2.redirect exit (b.releaseHead exit []))) = init := by
      conv_rhs => rw [← List.map_id init]
      exact List.map_congr_left fun l _ => congrArg (Prod.mk l.1) (l.2.redirect_self exit)
    rw [filled, same, Lines.withBeforeExit_nil]
    rfl
  · obtain ⟨i, rest, rfl⟩ := List.exists_cons_of_ne_nil filled
    exact Lines.withBeforeExit_concat filled init

theorem handles_released_concat :
    (b.released run).handles = init.map Prod.fst ++ (b.nextHandles run.length ++ [exit]) := by
  rw [handles, lines_released_concat straight lines, List.map_append, List.map_append,
    map_fst_fresh, List.map_map]
  rfl

/-- Up to the exit, an instruction stands where it stood, and the head of the run where the exit
stood. -/
theorem at?_released (inside : p < b.length) :
    (b.released run).at? p = (b.at? p).map (entering exit (b.nextHandles run.length)) := by
  rw [at?, at?, handles_released_concat straight lines, handles_of_final lines]
  rw [length, lines, List.length_append, List.length_singleton] at inside
  by_cases before : p < (init.map Prod.fst).length
  · rw [List.getElem?_append_left before, List.getElem?_append_left before,
      List.getElem?_eq_getElem before, Option.map_some]
    have once := b.nodup_handles
    rw [handles_of_final lines, List.nodup_append] at once
    have other : (init.map Prod.fst)[p] ≠ exit :=
      once.2.2 _ (List.getElem_mem before) exit (List.mem_singleton_self exit)
    rw [entering, if_neg other]
  · rw [List.length_map] at before
    obtain rfl : p = init.length := by omega
    have next (rest : List Handle) : (init.map Prod.fst ++ rest)[init.length]? = rest.head? := by
      rw [List.getElem?_append_right (Nat.le_of_eq (List.length_map _)), List.length_map,
        Nat.sub_self, List.head?_eq_getElem?]
    rw [next, next, List.head?_cons, Option.map_some, entering, if_pos rfl]
    cases b.nextHandles run.length <;> rfl

/-- An instruction keeps its place in the body and what it does; if it leads to the exit it leads
to the run. -/
theorem get?_released_old {i : Instr} (known : b.get? h = some i) :
    (b.released run).get? h = some (i.redirect exit (b.releaseHead exit run)) := by
  rw [get?_eq_some, lines] at known
  rw [get?_eq_some, lines_released_concat straight lines]
  obtain before | last := List.mem_append.1 known
  · exact List.mem_append_left _ (List.mem_map.2 ⟨(h, i), before, rfl⟩)
  · cases List.mem_singleton.1 last
    exact List.mem_append_right _ (List.mem_append_right _ (List.mem_singleton_self _))

theorem map_get?_released : (b.nextHandles run.length).map (b.released run).get? = run.map some := by
  refine map_get?_nextHandles fun l listed => ?_
  rw [lines_released_concat straight lines]
  exact List.mem_append_right _ (List.mem_append_left _ listed)

theorem mem_handles_released : h ∈ (b.released run).handles ↔
    h ∈ b.handles ∨ h ∈ b.nextHandles run.length := by
  rw [handles_released_concat straight lines, handles_of_final lines]
  simp only [List.mem_append]
  tauto

theorem entering_mem_handles (old : h ∈ b.handles) :
    entering exit (b.nextHandles run.length) h ∈ (b.released run).handles := by
  rw [mem_handles_released straight lines, entering]
  split
  · next same =>
    cases added : b.nextHandles run.length with
    | nil => exact .inl (same ▸ old)
    | cons first rest => exact .inr List.mem_cons_self
  · exact .inl old

/-- Where control goes from an instruction before the exit, it goes as before, and to the run in
place of the exit. -/
theorem edge_released (bound : b.Bound) {l : Handle × Instr} (line : b.lines[p]? = some l)
    (before : p < init.length) (h' : Handle) : (b.released run).Edge l.1 h' ↔
      ∃ h'', b.Edge l.1 h'' ∧ h' = entering exit (b.nextHandles run.length) h'' := by
  have inside : p + 1 < b.length := by
    rw [length, lines, List.length_append, List.length_singleton]
    omega
  have line' : (b.released run).lines[p]? =
      some (l.1, l.2.redirect exit (b.releaseHead exit run)) := by
    rw [lines, List.getElem?_append_left before] at line
    rw [lines_released_concat straight lines,
      List.getElem?_append_left (by rwa [List.length_map]), List.getElem?_map, line]
    rfl
  have target : (l.2.redirect exit (b.releaseHead exit run)).target? =
      l.2.target?.map (entering exit (b.nextHandles run.length)) := Instr.target?_redirect _ _ _
  rw [edge_of_line line', target, Instr.fallsThrough_redirect, at?_released straight lines inside]
  simp only [edge_of_line line, Option.map_eq_some_iff]
  constructor
  · rintro (⟨⟨h'', leads, rfl⟩, _⟩ | ⟨through, h'', next, rfl⟩)
    · exact ⟨h'', .inl ⟨leads, bound l (List.mem_of_getElem? line) h'' leads⟩, rfl⟩
    · exact ⟨h'', .inr ⟨through, next⟩, rfl⟩
  · rintro ⟨h'', ⟨leads, old⟩ | ⟨through, next⟩, rfl⟩
    · exact .inl ⟨⟨h'', leads, rfl⟩, entering_mem_handles straight lines old⟩
    · exact .inr ⟨through, h'', next, rfl⟩

theorem bound_released (bound : b.Bound) : (b.released run).Bound := by
  rw [Bound, lines_released_concat straight lines]
  simp only [List.forall_mem_append, List.forall_mem_map, List.forall_mem_singleton]
  refine ⟨fun l listed t leads => ?_, fun l listed t leads => ?_, fun t impossible => ?_⟩
  · rw [Instr.target?_redirect] at leads
    obtain ⟨t', leads', rfl⟩ := Option.map_eq_some_iff.1 leads
    have listed' : l ∈ b.lines := lines ▸ List.mem_append_left _ listed
    exact entering_mem_handles straight lines (bound l listed' t' leads')
  · rw [straight l.2 (snd_mem_of_mem_fresh listed)] at leads
    cases leads
  · cases impossible

end Released

theorem Bound.closed (bound : b.Bound) (final : b.finalExit? = some exit) : b.Closed where
  targets := bound
  ends l last := by
    rw [finalExit?_eq_some.1 final] at last
    cases last
    rfl

/-- A release is a detour before each arrival at the final exit. -/
theorem detoured_released (bound : b.Bound) (final : b.finalExit? = some exit)
    (straight : ∀ i ∈ run, i.Straight) :
    b.Detoured (b.released run) exit (b.nextHandles run.length) := by
  obtain ⟨init, lines⟩ : ∃ init, b.lines = init ++ [(exit, .ret)] :=
    List.getLast?_eq_some_iff.1 (finalExit?_eq_some.1 final)
  have noTarget : ∀ i ∈ run, i.target? = none := fun i listed => (straight i listed).target
  have lines' := lines_released_concat noTarget lines
  refine ⟨mem_handles_of_finalExit? final, fun h => not_mem_nextHandles, ?_, ?_, ?_⟩
  · have filled : 0 < b.length := by
      rw [length, lines, List.length_append, List.length_singleton]
      omega
    rw [first?, first?, List.head?_eq_getElem?, List.head?_eq_getElem?]
    exact at?_released noTarget lines filled
  · have passes := passes_of_lines lines' fun l listed => straight l.2 (snd_mem_of_mem_fresh listed)
    rwa [map_fst_fresh] at passes
  · intro h listed h'
    obtain ⟨l, member, rfl⟩ := List.mem_map.1 listed
    obtain ⟨p, line⟩ := List.mem_iff_getElem?.1 member
    by_cases before : p < init.length
    · exact edge_released noTarget lines bound line before h'
    · -- From the exit control goes nowhere, before and after.
      obtain rfl : l = (exit, .ret) := by
        rw [lines, List.getElem?_append_right (by omega)] at line
        exact List.mem_singleton.1 (List.mem_of_getElem? line)
      have member' : (exit, .ret) ∈ (b.released run).lines := by
        rw [lines']
        exact List.mem_append_right _ (List.mem_append_right _ (List.mem_singleton_self _))
      refine ⟨fun edge => absurd edge (not_edge_of_ret member'), ?_⟩
      rintro ⟨h'', edge, _⟩
      exact absurd edge (not_edge_of_ret member)

/-- What some releases make of a body: they are in it under the handles handed out, the final exit
is where it was, and the paths go through all of them on each arrival there. -/
structure Extended (b : Body) (exit : Handle) (runs : List (List Instr))
    (added : List (List Handle)) (b' : Body) : Prop where
  final : b'.finalExit? = some exit
  charted : b'.Charted
  runs : added.map (fun hs => hs.map b'.get?) = runs.map fun run => run.map some
  /-- A branch to the exit leads to the first of the new instructions, if there are any. -/
  old : ∀ h i, b.get? h = some i →
    b'.get? h = some (i.redirect exit (added.flatten.headD exit))
  /-- To each path there is one with the same original instructions and the same end. -/
  forth : ∀ path, b.IsPath path → ∀ path', b'.IsPath path' ∧
    path'.filter (· ∈ b.handles) = path ∧ path'.getLast? = path.getLast? ↔
      path' = withDetour exit added.flatten path
  /-- Each path to a `ret` or a `throw` comes from one path. -/
  back : ∀ path' h i, b'.IsPath path' → path'.getLast? = some h → b'.get? h = some i →
    i = .ret ∨ i = .throw → ∃! path, b.IsPath path ∧ path' = withDetour exit added.flatten path
  /-- No path is inside a run other than on its way through it to the exit. -/
  whole : ∀ path', b'.IsPath path' ↔ path' ≠ [] ∧
    ∃ path, b.IsPath path ∧ path' <+: withDetour exit added.flatten path

theorem extended_released {runs : List (List Instr)} {added : List (List Handle)}
    (bound : b.Bound) (final : b.finalExit? = some exit)
    (straight : ∀ i ∈ runs.flatten, i.Straight)
    (handles : added.flatten = b.nextHandles runs.flatten.length)
    (parts : added.map List.length = runs.map List.length) :
    b.Extended exit runs added (b.released runs.flatten) := by
  obtain ⟨init, lines⟩ : ∃ init, b.lines = init ++ [(exit, .ret)] :=
    List.getLast?_eq_some_iff.1 (finalExit?_eq_some.1 final)
  have noTarget : ∀ i ∈ runs.flatten, i.target? = none := fun i listed => (straight i listed).target
  have detoured := detoured_released bound final straight
  have names := map_get?_released noTarget lines
  rw [← handles] at detoured names
  have final' := (finalExit?_released runs.flatten b).trans final
  refine ⟨final', ((bound_released noTarget lines bound).closed final').charted, ?_,
    fun h i known => ?_,
    fun path isPath path' => detoured.eq_withDetour_iff isPath,
    fun path' h i isPath ends known leaves => ?_, fun path' => detoured.isPath_iff⟩
  · rw [List.eq_iff_flatten_eq]
    refine ⟨?_, ?_⟩
    · rw [← List.map_flatten, ← List.map_flatten, names]
    · simpa [List.map_map, Function.comp_def] using parts
  · rw [get?_released_old noTarget lines known, releaseHead, handles]
  · refine detoured.existsUnique_of_old isPath ends ?_
    obtain old | new := (mem_handles_released noTarget lines).1 (exists_get?.1 ⟨i, known⟩)
    · exact old
    · -- What is put in goes on to what follows it.
      rw [← handles] at new
      have inside : some i ∈ runs.flatten.map some := names ▸ known ▸ List.mem_map_of_mem new
      obtain ⟨i', listed, same⟩ := List.mem_map.1 inside
      cases same
      obtain rfl | rfl := leaves <;> cases (straight _ listed).falls

end Body

namespace Module

variable {m : Module} {teardown : MethodKey} {own : MethodDef} {b : Body} {exit : Handle}

/-- Append some releases one after the other; the handles of each. -/
def appendReleases (m : Module) (teardown : MethodKey) :
    List (List Instr) → Except WeaveError (Module × List (List Handle))
  | [] => .ok (m, [])
  | run :: rest => do
    let (m', added) ← m.appendRelease teardown run
    let (m'', more) ← m'.appendReleases teardown rest
    return (m'', added :: more)

/-- Releases one after the other are one release of all the runs. -/
theorem appendReleases_eq (found : m.findMethod? teardown = some own) (body : own.body = some b)
    (final : b.finalExit? = some exit) {runs : List (List Instr)}
    (straight : ∀ i ∈ runs.flatten, i.target? = none) :
    ∃ added : List (List Handle), m.appendReleases teardown runs =
        .ok (m.modifyBody teardown fun _ => b.released runs.flatten, added) ∧
      added.flatten = b.nextHandles runs.flatten.length ∧
      added.map List.length = runs.map List.length := by
  induction runs generalizing m own b with
  | nil =>
    refine ⟨[], ?_, rfl, rfl⟩
    have same : (m.modifyBody teardown fun _ => b.released []) = m := by
      refine modifyMethod_eq_self fun d found' => ?_
      rw [found] at found'
      cases found'
      rw [Body.released_nil, body]
      exact congrArg (fun body => { own with body }) body.symm
    rw [List.flatten_nil, same, appendReleases]
  | cons run rest ih =>
    obtain ⟨first, later⟩ := List.forall_mem_append.1 straight
    have found' : (m.modifyBody teardown fun _ => b.released run).findMethod? teardown =
        some { own with body := some (b.released run) } := by
      rw [modifyBody, findMethod?_modifyMethod, found, Option.map_some, if_pos rfl, body]
      rfl
    obtain ⟨added, appended, handles, parts⟩ := ih found' rfl
      ((Body.finalExit?_released run b).trans final) later
    refine ⟨b.nextHandles run.length :: added, ?_, ?_, ?_⟩
    · have both : ((m.modifyBody teardown fun _ => b.released run).modifyBody teardown
            fun _ => (b.released run).released rest.flatten) =
          m.modifyBody teardown fun _ => b.released (run ++ rest.flatten) := by
        rw [Body.released_append first later, modifyBody, modifyBody, modifyMethod_modifyMethod]
        simp only [Option.map_map, Function.comp_def]
        rfl
      rw [both] at appended
      rw [appendReleases, appendRelease_released found body final]
      simp only [bind, Except.bind, appended]
      rfl
    · rw [List.flatten_cons, List.flatten_cons, handles, Body.nextHandles, Body.nextHandles,
        Body.nextHandles, Body.length_released final, Handle.series_append, List.length_append]
    · rw [List.map_cons, List.map_cons, parts, Body.nextHandles, Handle.length_series]

/-- Every release of a sequence finds its place, and all of them are on every way to the exit. -/
theorem appendReleases_paths (found : m.findMethod? teardown = some own)
    (body : own.body = some b) (bound : b.Bound) (final : b.finalExit? = some exit)
    {runs : List (List Instr)}
    (straight : ∀ run ∈ runs, ∀ i ∈ run, i.target? = none ∧ i.fallsThrough = true) :
    b.Charted ∧ ∃ b' added, m.appendReleases teardown runs =
        .ok (m.modifyBody teardown fun _ => b', added) ∧ b.Extended exit runs added b' := by
  have straight' : ∀ i ∈ runs.flatten, i.Straight := fun i listed =>
    have ⟨run, member, inside⟩ := List.mem_flatten.1 listed
    Instr.straight_iff.2 (straight run member i inside)
  obtain ⟨added, appended, handles, parts⟩ := appendReleases_eq found body final fun i listed =>
    (straight' i listed).target
  exact ⟨(bound.closed final).charted, _, added, appended,
    Body.extended_released bound final straight' handles parts⟩

end Module

/-- A teardown that loops, and leaves the loop for its exit by a branch or by going on. -/
def Sample.loopingTeardown : Body :=
  Body.ofInstrs [.ldthis, .branch .whenTrue (.nth 5), .ldthis, .branch .whenTrue (.nth 1), .ret]

def Sample.loopingModule : Module where
  name := "App"
  types := [{ ns := "App", name := "Model",
              methods := [{ name := "Dispose", body := some Sample.loopingTeardown }] }]

open Sample in
theorem Module.appendReleases_paths_looping :
    loopingTeardown.Bound ∧ loopingTeardown.finalExit? = some (.nth 5) ∧
      ∃ b' added, loopingModule.appendReleases ⟨"App.Model", 0⟩ [[.nop], [], [.ldnull, .pop]] =
          .ok (loopingModule.modifyBody ⟨"App.Model", 0⟩ fun _ => b', added) ∧
        loopingTeardown.Extended (.nth 5) [[.nop], [], [.ldnull, .pop]] added b' := by
  have bound : loopingTeardown.Bound := by decide
  have final : loopingTeardown.finalExit? = some (.nth 5) := rfl
  exact ⟨bound, final, (Module.appendReleases_paths rfl rfl bound final (by decide)).2⟩

end ReleaseWeaver
