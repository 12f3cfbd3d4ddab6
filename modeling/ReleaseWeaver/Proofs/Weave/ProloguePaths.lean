import Mathlib.Data.Set.Card
import ReleaseWeaver.Proofs.Code.Paths
import ReleaseWeaver.Proofs.Tracking.Roles
import ReleaseWeaver.Proofs.Weave.Insertions
import ReleaseWeaver.Proofs.Weave.Verified

/-
  The prologue and paths. The prologue goes before the first instruction of each instance
  constructor, out of the way of the branches that lead back to that one. So a constructor fills
  the tracking field once however often it loops, and then does what it did.
-/

namespace ReleaseWeaver

namespace Body

variable {b b' : Body} {run : List Instr} {added : List Handle}

theorem handles_insertAt_zero (b : Body) (run : List Instr) :
    (b.insertAt 0 run).handles = b.nextHandles run.length ++ b.handles := by
  rw [handles_insertAt, List.take_zero, List.drop_zero, List.nil_append]

/-- A run put in front is passed once, if no branch leads out of the body. -/
theorem preceded_insertAt_zero (bound : b.Bound) (straight : ∀ i ∈ run, i.Straight) :
    b.Preceded (b.insertAt 0 run) (b.nextHandles run.length) where
  fresh h := not_mem_nextHandles
  starts := congrArg List.head? (handles_insertAt_zero b run)
  through := by
    have lines : (b.insertAt 0 run).lines = [] ++ (b.fresh run ++ b.lines) :=
      lines_insertAt_zero b run
    have passes := passes_of_lines lines fun l listed => straight l.2 (snd_mem_of_mem_fresh listed)
    rwa [map_fst_fresh] at passes
  same h listed h' := by
    obtain ⟨l, member, rfl⟩ := List.mem_map.1 listed
    obtain ⟨p, line⟩ := List.mem_iff_getElem?.1 member
    have line' : (b.insertAt 0 run).lines[run.length + p]? = some l := by
      rw [lines_insertAt_zero, List.getElem?_append_right (by rw [Lines.length_numbered]; omega),
        Lines.length_numbered, Nat.add_sub_cancel_left, line]
    have next : (b.insertAt 0 run).at? (run.length + p + 1) = b.at? (p + 1) := by
      have count : (b.nextHandles run.length).length = run.length := Handle.length_series _ _
      rw [at?, handles_insertAt_zero, List.getElem?_append_right (by omega), count, Nat.add_assoc,
        Nat.add_sub_cancel_left]
      rfl
    have leads : l.2.target? = some h' ∧ h' ∈ (b.insertAt 0 run).handles ↔
        l.2.target? = some h' ∧ h' ∈ b.handles := by
      refine and_congr_right fun target => ⟨fun _ => bound l member h' target, fun old => ?_⟩
      exact mem_handles_insertAt.2 (.inl old)
    rw [edge_of_line line, edge_of_line line', next, leads]

/-- What a run in front makes of a body: its instructions are what they were, and every path goes
through the run once and then as it would have gone. -/
structure Headed (b : Body) (run : List Instr) (added : List Handle) (b' : Body) : Prop where
  names : added.map b'.get? = run.map some
  new : ∀ h ∈ added, h ∉ b.handles
  old : ∀ h i, b.get? h = some i → b'.get? h = some i
  paths : ∀ path', b'.IsPath path' ↔
    path' ≠ [] ∧ path' <+: added ∨ ∃ path, b.IsPath path ∧ path' = added ++ path
  once : ∀ path', b'.IsPath path' → ∀ h ∈ added, path'.count h ≤ 1

theorem headed_insertAt_zero (bound : b.Bound) (straight : ∀ i ∈ run, i.Straight) :
    b.Headed run (b.nextHandles run.length) (b.insertAt 0 run) where
  names := map_get?_nextHandles fun l listed => mem_lines_insertAt.2 (.inr listed)
  new h := not_mem_nextHandles
  old h i known := (get?_insertAt_old (exists_get?.1 ⟨i, known⟩)).trans known
  paths path' := (preceded_insertAt_zero bound straight).isPath_iff
  once path' isPath h listed := by
    have distinct : (b.nextHandles run.length).Nodup := Handle.nodup_series _ _
    have within : (b.nextHandles run.length).count h ≤ 1 := List.nodup_iff_count_le_one.1 distinct h
    obtain ⟨_, front⟩ | ⟨path, old, rfl⟩ :=
      (preceded_insertAt_zero bound straight).isPath_iff.1 isPath
    · exact (front.sublist.count_le h).trans within
    · have away : path.count h = 0 := List.count_eq_zero.2 fun inside =>
        not_mem_nextHandles listed (old.mem_handles h inside)
      rw [List.count_append, away]
      exact within

end Body

/-- The method is an instance constructor with this body, which has instructions. -/
structure MethodDef.Constructs (d : MethodDef) (b : Body) : Prop where
  isConstructor : d.isConstructor = true
  isInstance : d.isStatic = false
  body : d.body = some b
  filled : b.lines ≠ []

theorem MethodDef.takesPrologue_iff {d : MethodDef} :
    d.takesPrologue = true ↔ ∃ b, d.Constructs b := by
  constructor
  · intro takes
    cases body : d.body with
    | none => simp [takesPrologue, body] at takes
    | some b =>
      simp only [takesPrologue, body, Option.map_some, Option.getD_some, Bool.and_eq_true,
        Bool.not_eq_true', Body.isEmpty, List.isEmpty_eq_false_iff] at takes
      exact ⟨b, takes.1.1, takes.1.2, body, takes.2⟩
  · rintro ⟨b, isConstructor, isInstance, body, filled⟩
    simp [takesPrologue, isConstructor, isInstance, body, Body.isEmpty, filled]

namespace Module

variable {m : Module} {typeName : String} {t : TypeDef}

/-- The instance constructors of a type that have instructions. -/
def instanceConstructors (m : Module) (typeName : String) : Set MethodKey :=
  { key | key.owner = typeName ∧ ∃ d b, m.findMethod? key = some d ∧ d.Constructs b }

theorem count_instrumentConstructors (field : FieldRef) (constructor : MethodRef)
    (known : m.findType? typeName = some t) :
    (m.instrumentConstructors typeName field constructor).2 =
      (m.instanceConstructors typeName).ncard := by
  have named : t.definitionName = typeName := (mem_of_findType? known).2
  obtain ⟨keys, chosen⟩ : ∃ keys : List MethodKey, keys =
    (t.keyedMethods.filter fun method => method.2.takesPrologue).map Prod.fst := ⟨_, rfl⟩
  have once : keys.Nodup := by
    rw [chosen]
    exact t.nodup_map_fst_keyedMethods.sublist (List.filter_sublist.map _)
  have same : m.instanceConstructors typeName = ↑keys.toFinset := by
    ext key
    simp only [instanceConstructors, Set.mem_ofPred_eq, List.coe_toFinset, chosen, List.mem_map,
      List.mem_filter, MethodDef.takesPrologue_iff, Prod.exists, TypeDef.mem_keyedMethods,
      findMethod?_eq_some]
    constructor
    · rintro ⟨rfl, d, b, ⟨t', known', there⟩, constructs⟩
      obtain rfl := Option.some.inj (known.symm.trans known')
      exact ⟨key, d, ⟨⟨named.symm, there⟩, b, constructs⟩, rfl⟩
    · rintro ⟨key, d, ⟨⟨owned, there⟩, b, constructs⟩, rfl⟩
      exact ⟨owned.trans named, d, b, ⟨t, by rw [owned, named, known], there⟩, constructs⟩
  have count : t.methods.countP MethodDef.takesPrologue = keys.length := by
    rw [chosen, List.length_map, ← List.countP_eq_length_filter, ← t.map_snd_keyedMethods,
      List.countP_map]
    rfl
  rw [same, Set.ncard_coe_finset, List.toFinset_card_of_nodup once, ← count,
    instrumentConstructors, known]
  rfl

/-- Each instance constructor of the type gets the prologue on its way in, however its branches
lead, every other method of the module stays as it is, and the count is that of the former. -/
theorem instrumentConstructors_paths (field : FieldRef) (constructor : MethodRef)
    (known : m.findType? typeName = some t) :
    (m.instrumentConstructors typeName field constructor).2 =
      (m.instanceConstructors typeName).ncard ∧
    ∀ key d, m.findMethod? key = some d →
      (∀ b, key.owner = typeName → d.Constructs b → b.Bound → ∃ added b',
        (m.instrumentConstructors typeName field constructor).1.findMethod? key =
            some { d with body := some b' } ∧
          b.Headed [.ldthis, .newobj constructor, .stfld field] added b') ∧
      ((key.owner = typeName → ∀ b, ¬d.Constructs b) →
        (m.instrumentConstructors typeName field constructor).1.findMethod? key = some d) := by
  refine ⟨count_instrumentConstructors field constructor known, fun key d found =>
    ⟨fun b owned constructs bound => ?_, fun other => ?_⟩⟩
  · have takes : d.takesPrologue = true := MethodDef.takesPrologue_iff.2 ⟨b, constructs⟩
    refine ⟨_, _, ?_, Body.headed_insertAt_zero bound (straight_prologue field constructor)⟩
    rw [findMethod?_instrumentConstructors, found, Option.map_some, if_pos owned,
      MethodDef.withPrologue, if_pos takes, constructs.body]
    rfl
  · rw [findMethod?_instrumentConstructors, found, Option.map_some]
    split
    · next owned =>
      have leaves : ¬d.takesPrologue = true := fun takes =>
        have ⟨b, constructs⟩ := MethodDef.takesPrologue_iff.1 takes
        other owned b constructs
      rw [MethodDef.withPrologue, if_neg leaves]
    · rfl

end Module

namespace Sample

/-- An instance constructor that may start again from its first instruction. -/
def restarting : MethodDef :=
  { MethodDef.constructor with
    body := some (Body.ofInstrs [.ldthis, .branch .whenTrue (.nth 1), .ret]) }

/-- A class with a constructor that restarts, one without instructions and a static one. -/
def restartingType : TypeDef where
  ns := modelsNamespace
  name := "Restarting"
  methods := [restarting, { MethodDef.constructor with body := some Body.empty },
    { MethodDef.constructor with
      flags := { isStatic := true, isConstructor := true }
      body := some (Body.ofInstrs [.ret]) }]

def restartingModule : Module where
  name := "App"
  types := [restartingType]

end Sample

open Sample in
theorem Module.instrumentConstructors_paths_restarting :
    restartingModule.findType? "Sweep.Tests.Models.Restarting" = some restartingType ∧
      ∃ added b', (restartingModule.instrumentConstructors "Sweep.Tests.Models.Restarting"
            ⟨model "Restarting", "Tracker", container⟩ containerConstructor).1.findMethod?
              ⟨"Sweep.Tests.Models.Restarting", 0⟩ =
          some { restarting with body := some b' } ∧
        (Body.ofInstrs [.ldthis, .branch .whenTrue (.nth 1), .ret]).Headed
          [.ldthis, .newobj containerConstructor,
            .stfld ⟨model "Restarting", "Tracker", container⟩] added b' := by
  have known : restartingModule.findType? "Sweep.Tests.Models.Restarting" =
      some restartingType := rfl
  have bound : (Body.ofInstrs [.ldthis, .branch .whenTrue (.nth 1), .ret]).Bound := by decide
  have constructs : restarting.Constructs
      (Body.ofInstrs [.ldthis, .branch .whenTrue (.nth 1), .ret]) := ⟨rfl, rfl, rfl, by decide⟩
  obtain ⟨_, each⟩ := Module.instrumentConstructors_paths
    ⟨model "Restarting", "Tracker", container⟩ containerConstructor known
  obtain ⟨changed, _⟩ := each ⟨"Sweep.Tests.Models.Restarting", 0⟩ restarting rfl
  exact ⟨known, changed _ rfl constructs bound⟩

end ReleaseWeaver
