import ReleaseWeaver.Proofs.Tracking.Constructing
import ReleaseWeaver.Proofs.Tracking.LeakFreedom
import ReleaseWeaver.Proofs.Weave.Exact

/-
  The constructors of a woven target. Each instance constructor that the target declares starts
  with the prologue for its tracking field, no branch leads into the prologue, and no other
  instruction of the woven module stores into a field of that name. So an object that is made
  through one such constructor gets one container.
-/

namespace ReleaseWeaver

open Machine (Program)

/-! ## Bodies -/

theorem Instr.Avoids.spares {i : Instr} {field : String} (avoids : i.Avoids field) :
    i.Spares field := by
  rintro f rfl
  exact avoids f rfl

theorem Instr.Spares.redirect {i : Instr} {field : String} (spares : i.Spares field)
    (source goal : Handle) : (i.redirect source goal).Spares field := by
  cases i with
  | branch on target =>
    intro f impossible
    cases impossible
  | _ => exact spares

/-- Behind the prologue, nothing that is woven in stores. -/
theorem WeaveContext.spares_insertions {c : WeaveContext} {handles : Option Target}
    {getters : List MethodRef} {t : TypeDef} {key : MethodKey} {d : MethodDef} (field : String) :
    ∀ i ∈ (c.insertions handles getters t key d).after ++
      (c.insertions handles getters t key d).last, i.Spares field :=
  forall_mem_insertions_behind (forall_mem_three nofun nofun nofun)
    (forall_mem_three nofun nofun nofun)
    fun _ _ => forall_mem_three nofun nofun nofun

namespace Body

variable {c : WeaveContext} {e : Insertions} {b : Body} {field : String}

theorem Avoids.spares (avoids : b.Avoids field) : b.Spares field :=
  fun l listed => (avoids l listed).spares

/-- The lines after what goes in front of a body: none of them stores into the field, and they
branch to old lines or past all of them. -/
theorem lines_rewritten_front (straight : ∀ i ∈ e.all, i.Straight)
    (silent : ∀ i ∈ e.front,
      i.isHandleCall c.collaborators.contract c.config.handleCallFragment = false)
    (aside : ∀ i ∈ e.after ++ e.last, i.Spares field) (spares : b.Spares field) :
    ∃ rest, (b.rewritten c e).lines = Lines.numbered b.length e.front ++ rest ∧
      (∀ l ∈ rest, l.2.Spares field) ∧
      ∀ l ∈ rest, ∀ t, l.2.target? = some t → (∃ l' ∈ b.lines, l'.2.target? = some t) ∨
        ∃ k, t = .nth (k + 1) ∧ b.length + e.front.length ≤ k := by
  obtain ⟨front, added⟩ := List.forall_mem_append.1 straight
  obtain ⟨_, last⟩ := List.forall_mem_append.1 added
  obtain ⟨start, stop, beyond, applied⟩ := e.applied_front front silent b.lines
  have lines := (lines_rewritten c (fun i listed => (last i listed).target) b).trans applied
  -- Where a line of the rest comes from.
  have origin : ∀ l ∈ Lines.withBeforeExit e.last stop (Lines.withAfterEach
      (Instr.isHandleCall c.collaborators.contract c.config.handleCallFragment) e.after start
      b.lines), l.2 ∈ e.after ++ e.last ∨ ∃ l' ∈ b.lines, l.2 = l'.2 ∨
        ∃ exit, l.2 = l'.2.redirect exit (.nth (stop + 1)) := by
    intro l listed
    obtain new | ⟨l', listed', _, same⟩ := Lines.mem_withBeforeExit listed
    · exact .inl (List.mem_append_right _ new)
    obtain old | new := Lines.mem_withAfterEach listed'
    · exact .inr ⟨l', old, same⟩
    · refine .inl (List.mem_append_left _ ?_)
      obtain same | ⟨exit, same⟩ := same
      · rw [same]
        exact new
      · have straight' := added l'.2 (List.mem_append_left _ new)
        rw [same, Instr.redirect_of_target?_none straight'.target]
        exact new
  refine ⟨_, lines, fun l listed => ?_, fun l listed t target => ?_⟩
  · obtain new | ⟨l', old, same | ⟨exit, same⟩⟩ := origin l listed
    · exact aside l.2 new
    · rw [same]
      exact spares l' old
    · rw [same]
      exact (spares l' old).redirect exit _
  · obtain new | ⟨l', old, same | ⟨exit, same⟩⟩ := origin l listed
    · rw [(added l.2 new).target] at target
      cases target
    · rw [same] at target
      exact .inl ⟨l', old, target⟩
    · rw [same, Instr.target?_redirect] at target
      obtain ⟨t', target', same⟩ := Option.map_eq_some_iff.1 target
      split at same
      · exact .inr ⟨stop, same.symm, beyond⟩
      · exact .inl ⟨l', old, same ▸ target'⟩

/-- With nothing in front, nothing stores into the field. -/
theorem Spares.rewritten (spares : b.Spares field) (straight : ∀ i ∈ e.all, i.Straight)
    (front : e.front = []) (aside : ∀ i ∈ e.after ++ e.last, i.Spares field) :
    (b.rewritten c e).Spares field := by
  obtain ⟨rest, lines, good, _⟩ := lines_rewritten_front (c := c) straight
    (fun i listed => by rw [front] at listed; cases listed) aside spares
  intro l listed
  rw [lines, front] at listed
  exact good l listed

/-- With a prologue in front, the body starts with it. -/
theorem fronted_rewritten {f : FieldRef} {constructor : MethodRef}
    (straight : ∀ i ∈ e.all, i.Straight) (front : e.front = prologue f constructor)
    (named : f.name = field) (params : constructor.params = [])
    (aside : ∀ i ∈ e.after ++ e.last, i.Spares field) (spares : b.Spares field) (bound : b.Bound) :
    (b.rewritten c e).Fronted field := by
  have silent : ∀ i ∈ e.front,
      i.isHandleCall c.collaborators.contract c.config.handleCallFragment = false := by
    rw [front]
    exact forall_mem_three rfl rfl rfl
  obtain ⟨rest, lines, good, targets⟩ := lines_rewritten_front straight silent aside spares
  rw [front] at lines targets
  have lines : (b.rewritten c e).lines = (.nth (b.length + 1), .ldthis) ::
      (.nth (b.length + 2), .newobj constructor) :: (.nth (b.length + 3), .stfld f) :: rest := lines
  have rest_of {q : Nat} {l : Handle × Instr} (past : 3 ≤ q)
      (line : (b.rewritten c e).lines[q]? = some l) : l ∈ rest := by
    obtain ⟨k, rfl⟩ := Nat.exists_eq_add_of_le' past
    rw [lines] at line
    exact List.mem_of_getElem? line
  refine ⟨⟨_, by rw [lines]; rfl⟩, ⟨_, constructor, by rw [lines]; rfl, params⟩,
    ⟨_, f, by rw [lines]; rfl, named⟩, fun q l line other => ?_, fun q l t q' line target found => ?_⟩
  · obtain early | past := Nat.lt_or_ge q 3
    · obtain rfl | rfl : q = 0 ∨ q = 1 := by omega
      all_goals
        rw [lines] at line
        cases line
        intro f impossible
        cases impossible
    · exact good l (rest_of past line)
  · by_contra inside
    obtain ⟨i, there⟩ := position?_eq_some.1 found
    -- The handles of the prologue are new, and no branch leads to them.
    have fresh : ∃ k, t = .nth (b.length + k) ∧ 0 < k ∧ k ≤ 3 := by
      rw [lines] at there
      obtain rfl | rfl | rfl : q' = 0 ∨ q' = 1 ∨ q' = 2 := by omega
      · cases there; exact ⟨1, rfl, by decide, by decide⟩
      · cases there; exact ⟨2, rfl, by decide, by decide⟩
      · cases there; exact ⟨3, rfl, by decide, by decide⟩
    obtain ⟨k, rfl, low, high⟩ := fresh
    have past : 3 ≤ q := by
      by_contra early
      rw [lines] at line
      obtain rfl | rfl | rfl : q = 0 ∨ q = 1 ∨ q = 2 := by omega
      all_goals
        cases line
        cases target
    obtain ⟨l', old, target'⟩ | ⟨k', same, beyond⟩ := targets l (rest_of past line) _ target
    · obtain ⟨k', _, small, same⟩ := mem_handles.1 (bound l' old _ target')
      have same := Handle.nth.inj same
      omega
    · have three : (prologue f constructor).length = 3 := rfl
      have same := Handle.nth.inj same
      omega

theorem rewritten_isEmpty (straight : ∀ i ∈ e.all, i.Straight) (front : e.front = [])
    (empty : b.isEmpty = true) : (b.rewritten c e).isEmpty = true := by
  have none : b.lines = [] := List.isEmpty_iff.1 empty
  rw [isEmpty, lines_rewritten c (fun i listed => (straight i
    (List.mem_append_right _ (List.mem_append_right _ listed))).target), none, Insertions.applied, front]
  rfl

end Body

/-- A method with its insertions starts with the prologue or does not store into the field. -/
theorem MethodDef.fronted_or_spares {c : WeaveContext} {e : Insertions} {d : MethodDef} {b : Body}
    {field : String} (f : FieldRef) (constructor : MethodRef) (body : d.body = some b)
    (straight : ∀ i ∈ e.all, i.Straight)
    (front : e.front = if d.takesPrologue then prologue f constructor else [])
    (named : f.name = field) (params : constructor.params = [])
    (aside : ∀ i ∈ e.after ++ e.last, i.Spares field) (spares : b.Spares field)
    (bound : d.takesPrologue = true → b.Bound) :
    if (d.rewritten c e).takesPrologue then (b.rewritten c e).Fronted field
    else (b.rewritten c e).Spares field := by
  have before : d.takesPrologue = (d.isConstructor && !d.isStatic && !b.isEmpty) := by
    rw [takesPrologue, body]
    rfl
  have after : (d.rewritten c e).takesPrologue =
      (d.isConstructor && !d.isStatic && !(b.rewritten c e).isEmpty) := by
    rw [takesPrologue, rewritten, body]
    rfl
  cases takes : d.takesPrologue with
  | true =>
    rw [takes, if_pos rfl] at front
    have fronted := Body.fronted_rewritten (c := c) straight front named params aside spares
      (bound takes)
    obtain ⟨h, first⟩ := fronted.this
    have filled : (b.rewritten c e).isEmpty = false := by
      rw [Body.isEmpty, List.isEmpty_eq_false_iff]
      intro empty
      rw [empty] at first
      cases first
    rw [before, Bool.and_eq_true] at takes
    rw [after, filled, takes.1]
    exact fronted
  | false =>
    rw [takes, if_neg Bool.false_ne_true] at front
    have keeps : (d.rewritten c e).takesPrologue = false := by
      cases empty : b.isEmpty with
      | true =>
        rw [after, Body.rewritten_isEmpty straight front empty, Bool.not_true, Bool.and_false]
      | false =>
        rw [before, empty, Bool.not_false, Bool.and_true] at takes
        rw [after, takes, Bool.false_and]
    rw [keeps]
    exact spares.rewritten straight front aside

/-! ## The other types -/

namespace Module

variable {m : Module} {owner field : String}

/-- The methods of the other types leave the field alone. -/
def OthersAvoid (m : Module) (owner field : String) : Prop :=
  ∀ key d, key.owner ≠ owner → m.findMethod? key = some d → d.Avoids field

theorem OthersAvoid.of_own {m' : Module} {target : Target} (avoids : m.OthersAvoid owner field)
    (same : ∀ name, name ≠ target.typeName → m'.findType? name = m.findType? name)
    (own : target.typeName = owner) : m'.OthersAvoid owner field := by
  intro key d other found
  rw [Weave.findMethod?_congr (same key.owner (own ▸ other))] at found
  exact avoids key d other found

end Module

namespace Weave

open ReleaseWeaver.Module

variable {c : WeaveContext} {targets : List Target} {m m' : Module} {entries : List TargetReport}
  {owner field : String}

theorem TrackPass.othersAvoid {r : Option WeaveError} (pass : TrackPass c targets m entries r m')
    (settled : Settled c targets m) (apart : Apart c targets owner field m)
    (avoids : m.OthersAvoid owner field) : m'.OthersAvoid owner field := by
  induction pass with
  | done | clash => exact avoids
  | refused _ _ _ ih => exact ih settled.tail apart.tail avoids
  | @woven target _ m t _ _ _ _ known planned _ _ ih =>
    obtain ⟨teardown, rfl⟩ := settled _ List.mem_cons_self _ _ known planned
    refine ih (settled.tail.of_keeps (keeps_trackTarget c target t teardown m))
      (apart.tail.of_shapes (shapes_trackTarget c target t _ m)) ?_
    by_cases own : target.typeName = owner
    · exact avoids.of_own (fun name other => findType?_trackTarget_of_ne known
        (owner_of_requiredPlan known planned) other) own
    · exact (aside_trackTarget known planned own
        (apart target List.mem_cons_self own t known)).others avoids

theorem ReleasePass.othersAvoid {capability : TypeRef}
    (pass : ReleasePass c capability targets m entries m') (settled : Settled c targets m)
    (avoids : m.OthersAvoid owner field) : m'.OthersAvoid owner field := by
  induction pass with
  | done => exact avoids
  | refused _ _ _ ih => exact ih settled.tail avoids
  | @woven target _ m t _ _ _ known planned _ ih =>
    obtain ⟨teardown, rfl⟩ := settled _ List.mem_cons_self _ _ known planned
    refine ih (settled.tail.of_keeps (keeps_releaseTarget c _ target teardown m)) ?_
    by_cases own : target.typeName = owner
    · exact avoids.of_own (fun name other => findType?_releaseTarget_of_ne _
        (owner_of_requiredPlan known planned) other m) own
    · exact (aside_releaseTarget _ known planned own).others avoids

end Weave

/-! ## The woven module -/

namespace Module

/-- An instance constructor that the type declares, with a body that is not empty. -/
def isConstructorOf (m : Module) (typeName : String) (key : MethodKey) : Bool :=
  key.owner = typeName && (m.findMethod? key).any MethodDef.takesPrologue

theorem isConstructorOf_of_found {m : Module} {key : MethodKey} {d : MethodDef}
    (found : m.findMethod? key = some d) :
    m.isConstructorOf key.owner key = d.takesPrologue := by
  rw [isConstructorOf, found, decide_eq_true rfl, Bool.true_and]
  rfl

/-- What the passes start from: a body of the original, or one that touches no field and does not
branch. -/
theorem start_cases {m : Module} {c : WeaveContext} {key : MethodKey} {d : MethodDef} {b : Body}
    (found : (Weave.start c m).findMethod? key = some d) (body : d.body = some b) :
    (∃ own, m.findMethod? key = some own ∧ own.body = some b ∧
        own.takesPrologue = d.takesPrologue) ∨
      ∀ l ∈ b.lines, l.2.accessed? = none ∧ l.2.target? = none := by
  obtain same | ⟨_, inherited, declaring, _, added⟩ := prepared_prepareTeardowns c.disposal
    (Target.select m c.markers .trackHandles ++ Target.select m c.markers .releaseCommands) m key
  · rw [show (Weave.prepareTeardowns c.disposal _ m).1.findMethod? key = some d from found] at same
    obtain ⟨own, found', core⟩ := Option.map_eq_some_iff.1 same.symm
    refine .inl ⟨own, found', (MethodDef.body_of_core core).trans body, ?_⟩
    show own.core.takesPrologue = d.core.takesPrologue
    rw [core]
  · rw [show (Weave.prepareTeardowns c.disposal _ m).1.findMethod? key = some d from found] at added
    have body' : (overridingTeardown inherited (inherited.refIn declaring)).body = some b :=
      (congrArg MethodDef.body (Option.some.inj added)).symm.trans body
    exact .inr (lines_overridingTeardown body')

end Module

namespace Weave

variable {c : WeaveContext} {capability : Option TypeRef} {m : Module} {outcome : WeaveOutcome}
  {entry : TargetReport} {owner field : String}

theorem Finished.othersAvoid (finished : Finished c capability m outcome)
    (present : capability.isSome = true ↔ c.markers.hasFamily .releaseCommands = true)
    (collected : c.markers = MarkerTable.collect m c.config.markers)
    (reported : entry ∈ outcome.entries)
    (apart : Apart c (Target.select m c.markers .trackHandles) owner field m)
    (avoids : (start c m).OthersAvoid owner field) : outcome.module.OthersAvoid owner field := by
  cases finished with
  | clash => cases reported
  | @woven entries entries' m' m'' log report pass reports idle commands =>
    have settled := settled_handles collected capability
    have kept := pass.keeps settled
    have tracked := pass.othersAvoid settled (apart.prepared collected)
      (prepared_eq_start (m := m) present ▸ avoids)
    cases capability with
    | none =>
      rw [idle rfl]
      exact tracked
    | some cap => exact (commands cap rfl).2.othersAvoid (settled_commands kept) tracked

/-- The constructors of a released handle target start with its prologue, and no other body of the
woven module stores into its tracking field. -/
theorem Finished.fronts {p : Program} (finished : Finished c capability m outcome)
    (present : capability.isSome = true ↔ c.markers.hasFamily .releaseCommands = true)
    (collected : c.markers = MarkerTable.collect m c.config.markers)
    (reported : entry ∈ outcome.entries) (family : entry.family = .trackHandles)
    (released : entry.isReleased = true) (woven : p.module = outcome.module)
    (params : c.collaborators.containerConstructor.params = [])
    (named : ∀ t, m.findType? entry.typeName = some t → (c.trackingField t).name = field)
    (apart : Apart c (Target.select m c.markers .trackHandles) entry.typeName field m)
    (avoids : ∀ key own b, m.findMethod? key = some own → own.body = some b → b.Avoids field)
    (within : ∀ key own b, m.findMethod? key = some own → own.body = some b →
      key.owner = entry.typeName → own.takesPrologue = true → b.Bound) :
    p.Fronts field (p.module.isConstructorOf entry.typeName) := by
  have avoids' (key : MethodKey) (d : MethodDef) (b : Body)
      (found : (start c m).findMethod? key = some d) (body : d.body = some b) : b.Avoids field := by
    obtain ⟨own, found', body', _⟩ | plain := Module.start_cases found body
    · exact avoids key own b found' body'
    · exact Body.avoids_of_plain plain field
  have others := finished.othersAvoid present collected reported apart
    fun key d _ found b body => avoids' key d b found body
  obtain ⟨t, teardown, known, _, marked, _, _, _, each⟩ :=
    finished.released present collected reported released
  rw [family] at marked
  have named' : (c.trackingField t).name = field :=
    trackingField_prepared named (prepared_eq_start (m := m) present ▸ known)
  have shape (key : MethodKey) (d : MethodDef) (b : Body) (found : p.module.findMethod? key = some d)
      (body : d.body = some b) (owned : key.owner = entry.typeName) :
      if d.takesPrologue then b.Fronted field else b.Spares field := by
    rw [woven, each key owned] at found
    obtain ⟨d, found₀, rfl⟩ := Option.map_eq_some_iff.1 found
    obtain ⟨b, body₀, rfl⟩ := Option.map_eq_some_iff.1 body
    refine MethodDef.fronted_or_spares (t.fieldRef (c.trackingField t))
      c.collaborators.containerConstructor body₀ WeaveContext.straight_all_insertions ?_ named' params
      (WeaveContext.spares_insertions field) (avoids' key d b found₀ body₀).spares fun takes => ?_
    · rw [Module.insertions, marked]
      rfl
    · obtain ⟨own, found', body', takes'⟩ | plain := Module.start_cases found₀ body₀
      · exact within key own b found' body' owned (takes'.trans takes)
      · exact Body.bound_of_plain plain
  constructor
  · intro key d b known constructs
    obtain ⟨found, body⟩ := Program.hasBody_iff.1 known
    obtain ⟨owned, takes⟩ := Bool.and_eq_true_iff.1 constructs
    have fronted := shape key d b found body (of_decide_eq_true owned)
    rw [found, Option.any_some] at takes
    rw [takes] at fronted
    exact fronted
  · intro key d b known other
    obtain ⟨found, body⟩ := Program.hasBody_iff.1 known
    by_cases owned : key.owner = entry.typeName
    · have spares := shape key d b found body owned
      rw [← owned, Module.isConstructorOf_of_found found] at other
      rw [other] at spares
      exact spares
    · exact (others key d owned (woven ▸ found) b body).spares

end Weave

end ReleaseWeaver
