import ReleaseWeaver.Proofs.Machine.Activations
import ReleaseWeaver.Proofs.Tracking.LeakFreedom
import ReleaseWeaver.Proofs.Weave.Exact

/-
  How a woven teardown is left. The releases of a target are one straight run right before the
  final `ret` of its teardown, and the branches that led to that `ret` lead to the head of the run.
  So an invocation that leaves by the final `ret` has executed the run once, from its first to its
  last instruction, and an invocation that leaves by another `ret` nothing of it.
-/

namespace ReleaseWeaver

/-! ## Bodies with a run before the final exit -/

/-- After `front` lines stands a straight run of `count` lines and then a last `ret`; no branch of
the front leads further than to the head of the run. -/
structure Body.RunsLast (b : Body) (front count : Nat) : Prop where
  length : b.lines.length = front + count + 1
  enters : ∀ q < front, ∀ l, b.lines[q]? = some l → ∀ t, l.2.target? = some t →
    ∀ q', b.position? t = some q' → q' ≤ front
  straight : ∀ q, front ≤ q → q < front + count → ∀ l, b.lines[q]? = some l → l.2.Straight
  exit : ∃ h, b.lines[front + count]? = some (h, .ret)

namespace Body

/-- The lines of a run. -/
def part (b : Body) (front count : Nat) : List Handle := (b.handles.drop front).take count

variable {b : Body} {front count q : Nat} {h : Handle}

theorem at?_eq_some {l : Handle × Instr} (line : b.lines[q]? = some l) : b.at? q = some l.1 := by
  rw [at?, handles, List.getElem?_map, line, Option.map_some]

theorem getElem?_part {k : Nat} (inside : k < count) :
    (b.part front count)[k]? = b.at? (front + k) := by
  rw [part, List.getElem?_take_of_lt inside, List.getElem?_drop, at?]

theorem mem_part (line : b.at? q = some h) :
    h ∈ b.part front count ↔ front ≤ q ∧ q < front + count := by
  constructor
  · intro listed
    obtain ⟨k, there⟩ := List.mem_iff_getElem?.1 listed
    have inside : k < count := by
      have bound := (List.getElem?_eq_some_iff.1 there).1
      rw [part, List.length_take] at bound
      exact (Nat.lt_min.1 bound).1
    rw [getElem?_part inside] at there
    have same : front + k = q :=
      (List.getElem?_inj (List.getElem?_eq_some_iff.1 there).1 b.nodup_handles).1
        (there.trans line.symm)
    omega
  · rintro ⟨low, high⟩
    refine List.mem_of_getElem? (i := q - front) ?_
    rw [getElem?_part (by omega), show front + (q - front) = q by omega, line]

theorem take_part_succ (low : front ≤ q) (high : q < front + count) (line : b.at? q = some h) :
    (b.part front count).take (q + 1 - front) = (b.part front count).take (q - front) ++ [h] := by
  rw [show q + 1 - front = (q - front) + 1 by omega, List.take_add_one, getElem?_part (by omega),
    show front + (q - front) = q by omega, line, Option.toList_some]

/-- What is put in last into a body stands before the final exit. -/
theorem lines_rewritten_of_closed {c : WeaveContext} {e : Insertions} {exit : Handle}
    (straight : ∀ i ∈ e.all, i.Straight) (final : b.finalExit? = some exit) :
    ∃ before, (b.rewritten c e).lines =
        before ++ (Lines.numbered (before.length + 1) e.last ++ [(exit, .ret)]) ∧
      (b.rewritten c e).part before.length e.last.length =
        Handle.series (before.length + 1) e.last.length ∧
      (b.Bound → (b.rewritten c e).RunsLast before.length e.last.length) := by
  have targets : ∀ i ∈ e.all, i.target? = none := fun i listed => (straight i listed).target
  have last : ∀ i ∈ e.last, i ∈ e.all := fun i listed =>
    List.mem_append_right _ (List.mem_append_right _ listed)
  obtain ⟨before, applied, grows, leads⟩ := e.applied_of_closed
    (Instr.isHandleCall c.collaborators.contract c.config.handleCallFragment) targets rfl
    (finalExit?_eq_some.1 final)
  have lines := (lines_rewritten c (fun i listed => targets i (last i listed)) b).trans applied
  refine ⟨before, lines, ?_, fun bound => ⟨?_, ?_, ?_, ?_⟩⟩
  · rw [part, handles, lines, List.map_append, List.drop_left' (List.length_map _), List.map_append,
      List.take_left' (by rw [List.length_map, Lines.length_numbered]), Lines.numbered,
      List.map_fst_zip (by rw [Handle.length_series])]
  · rw [lines, List.length_append, List.length_append, Lines.length_numbered, List.length_singleton,
      Nat.add_assoc]
  · -- A branch of the front leads into the front or to the head of the run.
    intro q inside l line t target q' found
    rw [lines, List.getElem?_append_left inside] at line
    obtain ⟨rfl, filled⟩ | ⟨l', listed, target', kept⟩ :=
      leads l (List.mem_of_getElem? line) t target
    · obtain ⟨i, rest, run⟩ := List.exists_cons_of_ne_nil filled
      have head : (b.rewritten c e).position? (.nth (before.length + 2)) = some before.length := by
        refine position?_eq_some.2 ⟨i, ?_⟩
        rw [lines, List.getElem?_append_right (Nat.le_refl _), Nat.sub_self, run]
        rfl
      exact Nat.le_of_eq (Option.some.inj (found.symm.trans head))
    · by_contra beyond
      obtain ⟨k, _, old, rfl⟩ := mem_handles.1 (bound l' listed t target')
      obtain ⟨i, there⟩ := position?_eq_some.1 found
      rw [lines, List.getElem?_append_right (by omega)] at there
      obtain new | exits := List.mem_append.1 (List.mem_of_getElem? there)
      · obtain ⟨k', high, _, same⟩ := Handle.mem_series.1 (List.of_mem_zip new).1
        cases same
        exact absurd (Nat.le_trans old grows) (Nat.not_le.2 high)
      · obtain ⟨same, _⟩ := Prod.mk.inj (List.mem_singleton.1 exits)
        have short := (List.getElem?_eq_some_iff.1 there).1
        rw [kept same] at short
        simp only [Lines.numbered, List.zip_nil_right, List.nil_append, List.length_singleton]
          at short
        omega
  · intro q low high l line
    rw [lines, List.getElem?_append_right low, List.getElem?_append_left
      (by rw [Lines.length_numbered]; omega)] at line
    exact straight l.2 (last l.2 (Lines.snd_mem_of_mem_numbered (List.mem_of_getElem? line)))
  · refine ⟨exit, ?_⟩
    rw [lines, List.getElem?_append_right (by omega), List.getElem?_append_right
      (by rw [Lines.length_numbered]; omega), Lines.length_numbered,
      show before.length + e.last.length - before.length - e.last.length = 0 by omega]
    rfl

end Body

namespace Machine

variable {b : Body} {front count : Nat}

/-- Of the run, an activation has executed what stands before its position. -/
def Activation.HasRun (b : Body) (front count : Nat) (a : Activation) (executed : List Handle) :
    Prop :=
  a.frame.body = b ∧ executed.filter (· ∈ b.part front count) =
    (b.part front count).take (a.frame.position - front)

theorem Activation.HasRun.goes {h : Heap} {a a' : Activation} {executed : List Handle}
    (shape : b.RunsLast front count) (run : a.HasRun b front count executed) (goes : a.Goes h a') :
    a'.HasRun b front count (executed ++ a.next) := by
  obtain ⟨body, run⟩ := run
  refine ⟨goes.same.2.1.trans body, ?_⟩
  cases a with
  | waiting f takes =>
    rw [goes.position_waiting, Activation.next, List.append_nil]
    exact run
  | working f =>
    obtain ⟨i, here, stays, leads⟩ := goes.position_working
    obtain ⟨name, line⟩ := Frame.current?_eq_some.1 here
    rw [show f.body = b from body] at line leads
    have named : b.at? f.position = some name := Body.at?_eq_some line
    have next : (Activation.working f).next = [name] := by
      rw [Activation.next, show f.body = b from body, named, Option.toList_some]
    rw [next, List.filter_append, run]
    show _ ++ _ = _
    rw [show (Activation.working f).frame.position = f.position from rfl]
    have inside : f.position < front + count + 1 := shape.length ▸ (List.getElem?_eq_some_iff.1 line).1
    obtain before | within | last : f.position < front ∨
        (front ≤ f.position ∧ f.position < front + count) ∨ f.position = front + count := by omega
    · -- In front of the run: nothing of it, and at most its head next.
      have outside : name ∉ b.part front count := fun listed => by
        have := (Body.mem_part named).1 listed
        omega
      have reach : a'.frame.position ≤ front := by
        obtain next | ⟨t, target, found⟩ := leads
        · omega
        · exact shape.enters _ before _ line t target _ found
      have none : [name].filter (· ∈ b.part front count) = [] := by simp [outside]
      rw [none, show f.position - front = 0 by omega, show a'.frame.position - front = 0 by omega,
        List.take_zero, List.append_nil]
    · have listed : name ∈ b.part front count := (Body.mem_part named).2 within
      have one : [name].filter (· ∈ b.part front count) = [name] := by simp [listed]
      have next : a'.frame.position = f.position + 1 := by
        obtain next | ⟨t, target, _⟩ := leads
        · exact next
        · rw [(shape.straight _ within.1 within.2 _ line).target] at target
          cases target
      rw [one, next, Body.take_part_succ within.1 within.2 named]
    · obtain ⟨_, exit⟩ := shape.exit
      rw [last, exit] at line
      cases line
      cases stays

/-- An invocation of a method returns from the position of `f` and has executed these lines of its
body; the lines that the calls in it execute are not among them. -/
def Program.ReturnsFrom (p : Program) (key : MethodKey) (executed : List Handle) (f : Frame) :
    Prop :=
  ∃ d b args memory under states memory' m result,
    HasBody p.module key d b ∧
    p.Passes (.running ⟨memory, .frame (Frame.start key d b args), under⟩) states
      (.running ⟨memory', .frame f, under⟩) ∧
    (∀ s ∈ states, under.length ≤ s.callers.length) ∧
    executed = states.flatMap (State.next under.length) ∧
    State.Ends ⟨memory', .frame f, under⟩ m (.ok result) ∧
    p.step ⟨memory', .frame f, under⟩ = resume m result under

/-- Every invocation that returns has executed these lines once and in this order if it returns
from the last line of the body, and none of them if it returns from another line. -/
def Program.RunsAtExit (p : Program) (key : MethodKey) (b : Body) (run : List Handle) : Prop :=
  ∀ executed f, p.ReturnsFrom key executed f →
    executed.filter (· ∈ run) = if f.position + 1 = b.length then run else []

theorem Program.HasBody.runsAtExit {p : Program} {key : MethodKey} {own : MethodDef}
    (known : HasBody p.module key own b) (shape : b.RunsLast front count) :
    p.RunsAtExit key b (b.part front count) := by
  intro executed f returns
  obtain ⟨d, b', args, memory, under, states, memory', m, result, known', passes, within, rfl,
    ends, _⟩ := returns
  obtain ⟨found, body⟩ := hasBody_iff.1 known
  obtain ⟨found', body'⟩ := hasBody_iff.1 known'
  cases found.symm.trans found'
  cases body.symm.trans body'
  have start : (Activation.working (Frame.start key own b args)).HasRun b front count [] :=
    ⟨rfl, by rw [show (Activation.working (Frame.start key own b args)).frame.position = 0 from rfl,
      Nat.zero_sub, List.take_zero, List.filter_nil]⟩
  obtain ⟨a, stands, same, run⟩ | ⟨e, failing, _⟩ :=
    passes.activation start (fun _ _ _ _ run goes => run.goes shape goes) within _ rfl (Nat.le_refl _)
  swap
  · cases failing
  obtain ⟨_, active, rfl⟩ := stands.working_of_length rfl
  cases active
  rw [run]
  dsimp only [Activation.frame] at same ⊢
  have here : f.current? = some .ret := by
    cases ends with
    | left here executes =>
      cases executes
      exact here
  obtain ⟨name, line⟩ := Frame.current?_eq_some.1 here
  rw [same] at line
  have length : b.length = front + count + 1 := shape.length
  have inside : f.position < front + count + 1 := shape.length ▸ (List.getElem?_eq_some_iff.1 line).1
  have whole : (b.part front count).length ≤ count := List.length_take_le _ _
  obtain before | within | last : f.position < front ∨
      (front ≤ f.position ∧ f.position < front + count) ∨ f.position = front + count := by omega
  · rw [if_neg (by omega), show f.position - front = 0 by omega, List.take_zero]
  · cases (shape.straight _ within.1 within.2 _ line).notRet
  · rw [if_pos (by omega), List.take_of_length_le (by omega)]

/-- Invoke a method that nothing waits for, and follow it for at most so many steps to where it
returns. -/
def Program.returns? (p : Program) (key : MethodKey) (memory : Memory) (args : List Value)
    (count : Nat) : Option (List Handle × Frame) :=
  (p.module.findMethod? key).bind fun d => d.body.bind fun b =>
    let start := .running ⟨memory, .frame (Frame.start key d b args), []⟩
    match p.runFor count start with
    | .running ⟨m, .frame f, []⟩ => match p.step ⟨m, .frame f, []⟩ with
      | .finished _ (.ok _) => some ((p.trace count start).flatMap (State.next 0), f)
      | _ => none
    | _ => none

theorem Program.returnsFrom_of_returns? {p : Program} {key : MethodKey} {memory : Memory}
    {args : List Value} {count : Nat} {executed : List Handle} {f : Frame}
    (found : p.returns? key memory args count = some (executed, f)) :
    p.ReturnsFrom key executed f := by
  obtain ⟨d, known, rest⟩ := Option.bind_eq_some_iff.1 found
  obtain ⟨b, body, rest⟩ := Option.bind_eq_some_iff.1 rest
  dsimp only at rest
  split at rest
  · next m f' reached =>
    split at rest
    · next m' result last =>
      cases rest
      have passes := p.passes_trace count (.running ⟨memory, .frame (Frame.start key d b args), []⟩)
      rw [reached] at passes
      exact ⟨d, b, args, memory, [], _, m, m', result, hasBody_iff.2 ⟨known, body⟩, passes,
        fun _ _ => Nat.zero_le _, rfl, (ends_of_finished last).2, last⟩
    · cases rest
  · cases rest

/-- What is found of an invocation that is followed is found of one that returns. -/
theorem Program.exists_returnsFrom {p : Program} {key : MethodKey} {memory : Memory}
    {args : List Value} {count : Nat} {check : List Handle × Frame → Bool}
    (found : (p.returns? key memory args count).any check = true) :
    ∃ executed f, p.ReturnsFrom key executed f ∧ check (executed, f) = true := by
  cases left : p.returns? key memory args count with
  | none =>
    rw [left] at found
    cases found
  | some r =>
    rw [left] at found
    exact ⟨r.1, r.2, returnsFrom_of_returns? left, found⟩

end Machine

/-! ## The teardown of a target -/

namespace Module

open Machine

/-- The teardown of a released type: its body when the passes start, its body in the end, and what
the passes put before its final exit, the releases in the order of the passes. -/
structure WeavesTeardown (m : Module) (c : WeaveContext) (entry : TargetReport) (after : Module)
    (teardown : MethodKey) (b b' : Body) (before : List (Handle × Instr)) (run : List Instr) :
    Prop where
  declared : ∃ t own, (Weave.start c m).findType? entry.typeName = some t ∧
    t.ownTeardown? c.disposal = some (teardown, own) ∧ own.body = some b ∧
    run = (m.insertions c t teardown own).last
  woven : ∃ own, Program.HasBody after teardown own b'
  lines : ∃ exit, b'.lines =
    before ++ (Lines.numbered (before.length + 1) run ++ [(exit, .ret)])

end Module

theorem Weave.Finished.releasesAtExit {c : WeaveContext} {capability : Option TypeRef} {m : Module}
    {outcome : WeaveOutcome} {entry : TargetReport} {p : Machine.Program}
    (finished : Finished c capability m outcome)
    (present : capability.isSome = true ↔ c.markers.hasFamily .releaseCommands = true)
    (collected : c.markers = MarkerTable.collect m c.config.markers)
    (reported : entry ∈ outcome.entries) (released : entry.isReleased = true)
    (woven : p.module = outcome.module) :
    ∃ teardown b b' before run, m.WeavesTeardown c entry p.module teardown b b' before run ∧
      (b.Bound → p.RunsAtExit teardown b' (Handle.series (before.length + 1) run.length)) := by
  obtain ⟨t, teardown, known, _, _, planned, _, _, each⟩ :=
    finished.released present collected reported released
  obtain ⟨own, exit, declared, final⟩ := ownTeardown?_of_requiredPlan planned
  obtain ⟨listed, named⟩ := Module.mem_of_findType? known
  obtain ⟨owned, _, found, _⟩ := Module.findMethod?_of_ownTeardown? listed declared
  obtain ⟨b, body, final⟩ : ∃ b, own.body = some b ∧ b.finalExit? = some exit :=
    Option.bind_eq_some_iff.1 final
  obtain ⟨before, lines, part, runs⟩ := Body.lines_rewritten_of_closed (c := c)
    (e := m.insertions c t teardown own) WeaveContext.straight_all_insertions final
  have after := each teardown (owned.trans named)
  rw [found, Option.map_some, ← woven] at after
  have bodied : Machine.Program.HasBody p.module teardown _ _ :=
    Machine.Program.hasBody_iff.2 ⟨after, by rw [MethodDef.rewritten, body, Option.map_some]⟩
  refine ⟨teardown, b, _, before, _,
    ⟨⟨t, own, known, declared, body, rfl⟩, ⟨_, bodied⟩, ⟨exit, lines⟩⟩, fun bound => ?_⟩
  rw [← part]
  exact bodied.runsAtExit (runs bound)

namespace Module

/-- The body that the teardown of a type has when the passes start. -/
def teardownBody? (m : Module) (config : Config) (typeName : String) : Option Body :=
  match Collaborators.resolve m config with
  | .error _ => none
  | .ok collaborators =>
    let c : WeaveContext := ⟨config, collaborators, MarkerTable.collect m config.markers⟩
    ((Weave.start c m).findType? typeName).bind fun t =>
      (t.ownTeardown? c.disposal).bind fun method => method.2.body

/-- The branches of the teardown stay in its body. -/
def TeardownWithin (m : Module) (config : Config) (typeName : String) : Prop :=
  ∀ b ∈ m.teardownBody? config typeName, b.Bound

instance (m : Module) (config : Config) (typeName : String) :
    Decidable (m.TeardownWithin config typeName) :=
  inferInstanceAs (Decidable (∀ b ∈ m.teardownBody? config typeName, b.Bound))

/-- An invocation of a woven teardown that returns has executed the releases once and in order if
it leaves by the final exit, and nothing of them if it leaves by another `ret`. -/
theorem weave_releasesAtExit {m : Module} {config : Config} {entry : TargetReport}
    {p : Machine.Program} (reported : entry ∈ (m.weave config).entries)
    (released : entry.isReleased = true) (within : m.TeardownWithin config entry.typeName)
    (woven : p.module = (m.weave config).module) :
    ∃ collaborators teardown b b' before run,
      Collaborators.resolve m config = .ok collaborators ∧
      m.WeavesTeardown ⟨config, collaborators, MarkerTable.collect m config.markers⟩ entry p.module
        teardown b b' before run ∧
      p.RunsAtExit teardown b' (Handle.series (before.length + 1) run.length) := by
  obtain ⟨e, stopped⟩ | ⟨collaborators, capability, resolved, present, finished⟩ :=
    Weave.weave_cases m config
  · rw [stopped] at reported
    cases reported
  obtain ⟨teardown, b, b', before, run, weaves, runs⟩ :=
    finished.releasesAtExit present rfl reported released woven
  obtain ⟨t, own, known, declared, body, _⟩ := weaves.declared
  have found : m.teardownBody? config entry.typeName = some b := by
    unfold teardownBody?
    rw [resolved]
    dsimp only
    rw [known, Option.bind_some, declared, Option.bind_some, body]
  exact ⟨collaborators, teardown, b, b', before, run, resolved, weaves, runs (within b found)⟩

end Module

/-! ## Teardowns with several exits -/

namespace Sample

open Machine

def earlyExitEntry : TargetReport :=
  { typeName := "Sweep.Tests.Models.EarlyExitTeardownModel", family := .trackHandles, wide := true,
    state := .released, registrations := 1, constructors := 1 }

/-- A marked class with a constructor and this teardown. -/
def closingKeeper (code : List Instr) : Module := built do
  let model ← startKeeper object objectConstructor
  let _ ← model.constructor [] []
  let _ ← model.teardown code

/-- The teardown returns before its last instruction. -/
def returningKeeper : Module := closingKeeper [.ldnull, .branch .whenTrue (.nth 4), .ret]

/-- The teardown branches to the last instruction of its release. -/
def skippingKeeper : Module :=
  closingKeeper [.newobj (constructorOf container []), .branch .always (.nth 6)]

/-- The names of the fields that some lines read or write. -/
def accesses (lines : List (Handle × Instr)) : List (Handle × Option String) :=
  lines.map fun l => (l.1, l.2.accessed?.map FieldRef.name)

/-- The memory that a request leaves. -/
def memoryAfter (p : Program) (m : Memory) (request : Request) : Memory :=
  match p.runFor 100 (p.perform m [] request) with
  | .finished m _ => m
  | .running s => s.memory

/-- The memory after an object of the class was made. -/
def madeIn (p : Program) (className : String) : Memory :=
  memoryAfter p {} (.construct className [])

/-- A first release takes the long way, a second one the early exit; both run the release. -/
def earlyExitMemory : Memory :=
  memoryAfter (host earlyExit) (madeIn (host earlyExit) earlyExitEntry.typeName)
    (.callByName (.object 1) "Dispose" [])

end Sample

open Sample Machine Program in
theorem Module.weave_releasesAtExit_earlyExit :
    earlyExitEntry ∈ (earlyExit.weave Config.default).entries ∧
      (∃ executed f, (host earlyExit).ReturnsFrom ⟨earlyExitEntry.typeName, 1⟩ executed f ∧
        executed = [.nth 1, .nth 2, .nth 3, .nth 8, .nth 9, .nth 10]) ∧
      ∃ collaborators teardown b b' before run,
        Collaborators.resolve earlyExit Config.default = .ok collaborators ∧
        earlyExit.WeavesTeardown ⟨Config.default, collaborators,
            MarkerTable.collect earlyExit Config.default.markers⟩ earlyExitEntry
          (host earlyExit).module teardown b b' before run ∧
        (host earlyExit).RunsAtExit teardown b' (Handle.series (before.length + 1) run.length) := by
  have reported : earlyExitEntry ∈ (earlyExit.weave Config.default).entries := by decide +kernel
  have left : ((host earlyExit).returns? ⟨earlyExitEntry.typeName, 1⟩ earlyExitMemory [.object 1]
      7).any (fun (executed, _) =>
        executed = [.nth 1, .nth 2, .nth 3, .nth 8, .nth 9, .nth 10]) = true := by
    decide +kernel
  obtain ⟨executed, f, returns, check⟩ := exists_returnsFrom left
  have within : earlyExit.TeardownWithin Config.default earlyExitEntry.typeName := by decide +kernel
  exact ⟨reported, ⟨executed, f, returns, of_decide_eq_true check⟩,
    weave_releasesAtExit reported rfl within (module_host earlyExit)⟩

open Sample Machine Program in
/-- A `ret` before the last instruction leaves the release out, and so may a branch that leaves
the author's instructions. -/
theorem Module.weave_skipsRelease :
    (keeperEntry 0 ∈ (returningKeeper.weave Config.default).entries ∧
      returningKeeper.verify = .ok () ∧
      ∃ executed f, (host returningKeeper).ReturnsFrom ⟨keeperName, 1⟩ executed f ∧
        accesses (f.body.lines.drop 3) = [(.nth 5, none), (.nth 6, "$SweepTrackerKeeper"),
          (.nth 7, none), (.nth 4, none)] ∧
        executed = [.nth 1, .nth 2]) ∧
    keeperEntry 0 ∈ (skippingKeeper.weave Config.default).entries ∧
      ∃ executed f, (host skippingKeeper).ReturnsFrom ⟨keeperName, 1⟩ executed f ∧
        accesses (f.body.lines.drop 2) = [(.nth 4, none), (.nth 5, "$SweepTrackerKeeper"),
          (.nth 6, none), (.nth 3, none)] ∧
        executed = [.nth 1, .nth 2, .nth 6] := by
  refine ⟨⟨by decide +kernel, by decide +kernel, ?_⟩, by decide +kernel, ?_⟩
  · have left : ((host returningKeeper).returns? ⟨keeperName, 1⟩
        (madeIn (host returningKeeper) keeperName) [.object 1] 2).any (fun (executed, f) =>
          accesses (f.body.lines.drop 3) = [(.nth 5, none), (.nth 6, "$SweepTrackerKeeper"),
          (.nth 7, none), (.nth 4, none)] ∧
          executed = [.nth 1, .nth 2]) = true := by
      decide +kernel
    obtain ⟨executed, f, returns, check⟩ := exists_returnsFrom left
    exact ⟨executed, f, returns, of_decide_eq_true check⟩
  · have left : ((host skippingKeeper).returns? ⟨keeperName, 1⟩
        (madeIn (host skippingKeeper) keeperName) [.object 1] 6).any (fun (executed, f) =>
          accesses (f.body.lines.drop 2) = [(.nth 4, none), (.nth 5, "$SweepTrackerKeeper"),
          (.nth 6, none), (.nth 3, none)] ∧
          executed = [.nth 1, .nth 2, .nth 6]) = true := by
      decide +kernel
    obtain ⟨executed, f, returns, check⟩ := exists_returnsFrom left
    exact ⟨executed, f, returns, of_decide_eq_true check⟩

end ReleaseWeaver
