import ReleaseWeaver.Proofs.Weave.Commands
import ReleaseWeaver.Proofs.Weave.Insertions
import ReleaseWeaver.Proofs.Weave.Rounds

/-
  What a pass makes of one type. A pass leaves every other type as it is, so what it does to the
  methods of a target is what it does at the target's turn: at most one prologue, the
  registrations, and the releases before the final exit of the teardown.
-/

namespace ReleaseWeaver

/-! ## The insertions of a target -/

/-- What a run puts into a method of a released type: a prologue and registrations if the type is a
handle target, and the releases of both families if the method is the type's teardown. -/
def WeaveContext.insertions (c : WeaveContext) (handles : Option Target) (getters : List MethodRef)
    (t : TypeDef) (key : MethodKey) (d : MethodDef) : Insertions :=
  let field := t.fieldRef (c.trackingField t)
  let inScope := handles.any fun target =>
    (target.methods c.markers t).any fun method => method.1 = key
  let isTeardown := (t.ownTeardown? c.disposal).any fun method => method.1 = key
  { front :=
      if handles.isSome && d.takesPrologue then
        [.ldthis, .newobj c.collaborators.containerConstructor, .stfld field]
      else []
    after := if inScope then [.ldthis, .ldfld field, .call c.collaborators.helper] else []
    last :=
      if isTeardown then
        (if handles.isSome then
          [.ldthis, .ldfld field, .callvirt c.collaborators.containerRelease]
        else []) ++ getters.flatMap fun getter =>
          [.ldthis, .call getter, .callvirt c.collaborators.contractRelease]
      else [] }

namespace WeaveContext

variable {c : WeaveContext} {handles : Option Target} {getters : List MethodRef} {t : TypeDef}
  {key : MethodKey} {d : MethodDef} {P : Instr → Prop}

/-- What holds of the registration and of the releases holds of all that goes in behind the front. -/
theorem forall_mem_insertions_behind
    (after : ∀ i ∈ registration (t.fieldRef (c.trackingField t)) c.collaborators.helper, P i)
    (last : ∀ i ∈ releaseField (t.fieldRef (c.trackingField t)) c.collaborators.containerRelease, P i)
    (commands : ∀ getter ∈ getters,
      ∀ i ∈ releaseProperty getter c.collaborators.contractRelease, P i) :
    ∀ i ∈ (c.insertions handles getters t key d).after ++
      (c.insertions handles getters t key d).last, P i := by
  intro i listed
  unfold insertions at listed
  dsimp only at listed
  obtain registered | released := List.mem_append.1 listed
  · split at registered
    · exact after i registered
    · cases registered
  split at released
  · obtain handle | command := List.mem_append.1 released
    · split at handle
      · exact last i handle
      · cases handle
    · obtain ⟨getter, read, command⟩ := List.mem_flatMap.1 command
      exact commands getter read i command
  · cases released

theorem forall_mem_insertions
    (front : ∀ i ∈ prologue (t.fieldRef (c.trackingField t)) c.collaborators.containerConstructor,
      P i)
    (after : ∀ i ∈ registration (t.fieldRef (c.trackingField t)) c.collaborators.helper, P i)
    (last : ∀ i ∈ releaseField (t.fieldRef (c.trackingField t)) c.collaborators.containerRelease, P i)
    (commands : ∀ getter ∈ getters,
      ∀ i ∈ releaseProperty getter c.collaborators.contractRelease, P i) :
    ∀ i ∈ (c.insertions handles getters t key d).all, P i := by
  intro i listed
  obtain first | behind := List.mem_append.1 listed
  · unfold insertions at first
    dsimp only at first
    split at first
    · exact front i first
    · cases first
  · exact forall_mem_insertions_behind after last commands i behind

/-- Everything that goes in is straight. -/
theorem straight_all_insertions :
    ∀ i ∈ (c.insertions handles getters t key d).all, i.Straight :=
  forall_mem_insertions (straight_prologue _ _) (straight_registration _ _)
    (straight_releaseField _ _) fun _ _ => straight_releaseProperty _ _

theorem straight_insertions :
    ∀ i ∈ (c.insertions handles getters t key d).last, i.target? = none := fun i listed =>
  (straight_all_insertions i (List.mem_append_right _ (List.mem_append_right _ listed))).target

theorem insertions_none : c.insertions none [] t key d = {} := by
  simp [insertions]

/-- The releases of the getters come after what is there. -/
theorem insertions_getters (getters : List MethodRef) : c.insertions handles getters t key d =
    { c.insertions handles [] t key d with
      last := (c.insertions handles [] t key d).last ++
        if (t.ownTeardown? c.disposal).any fun method => method.1 = key then
          getters.flatMap fun getter => releaseProperty getter c.collaborators.contractRelease
        else [] } := by
  by_cases isTeardown : (t.ownTeardown? c.disposal).any (fun method => method.1 = key) = true
  · simp only [insertions, isTeardown, if_true, List.flatMap_nil, List.append_nil, releaseProperty]
  · simp only [insertions, isTeardown, if_false, List.append_nil, Bool.false_eq_true]

end WeaveContext

theorem MethodDef.foldl_released_rewritten {c : WeaveContext} {e : Insertions}
    (straight : ∀ i ∈ e.last, i.target? = none) (getters : List MethodRef) (release : MethodRef)
    (d : MethodDef) :
    getters.foldl (fun d getter => d.released (releaseProperty getter release)) (d.rewritten c e) =
      d.rewritten c { e with
        last := e.last ++ getters.flatMap fun getter => releaseProperty getter release } := by
  induction getters generalizing e with
  | nil => rw [List.flatMap_nil, List.append_nil]; rfl
  | cons getter rest ih =>
    have straight' : ∀ i ∈ releaseProperty getter release, i.target? = none := fun i listed =>
      (straight_releaseProperty getter release i listed).target
    rw [List.foldl_cons, released_rewritten c straight straight', ih, List.flatMap_cons,
      List.append_assoc]
    intro i listed
    exact (List.mem_append.1 listed).elim (straight i) (straight' i)

namespace Module

variable {m m' : Module} {c : WeaveContext} {target : Target} {t : TypeDef} {key teardown : MethodKey}
  {own : MethodDef} {getters : List MethodRef}

/-! ## The type itself -/

theorem any_key_iff {α : Type} {keyed : List (MethodKey × α)} :
    keyed.any (fun method => method.1 = key) = true ↔ key ∈ keyed.map Prod.fst := by
  simp [List.any_eq_true]

/-- The prologue and the registrations of a handle target. -/
theorem rewritten_instrumented (c : WeaveContext) (target : Target) (t : TypeDef) (key : MethodKey)
    (d : MethodDef) : (if key ∈ (target.methods c.markers t).map Prod.fst then
        (d.withPrologue (prologue (t.fieldRef (c.trackingField t))
          c.collaborators.containerConstructor)).registered c (t.fieldRef (c.trackingField t))
      else d.withPrologue (prologue (t.fieldRef (c.trackingField t))
        c.collaborators.containerConstructor)) =
      d.rewritten c
        { front := (c.insertions (some target) [] t key d).front
          after := (c.insertions (some target) [] t key d).after } := by
  have front : (c.insertions (some target) [] t key d).front = if d.takesPrologue then
      prologue (t.fieldRef (c.trackingField t)) c.collaborators.containerConstructor else [] := by
    simp only [WeaveContext.insertions, Option.isSome_some, Bool.true_and, prologue]
  rw [MethodDef.withPrologue_eq c]
  split
  · next listed =>
    have after : (c.insertions (some target) [] t key d).after =
        registration (t.fieldRef (c.trackingField t)) c.collaborators.helper := by
      simp only [WeaveContext.insertions, Option.any_some, any_key_iff.2 listed, if_true,
        registration]
    rw [MethodDef.registered_rewritten, front, after]
  · next unlisted =>
    have after : (c.insertions (some target) [] t key d).after = [] := by
      simp only [WeaveContext.insertions, Option.any_some, mt any_key_iff.1 unlisted, if_false,
        Bool.false_eq_true]
    rw [front, after]

theorem any_own_iff (declared : t.ownTeardown? c.disposal = some (teardown, own)) :
    (t.ownTeardown? c.disposal).any (fun method => method.1 = key) = true ↔ key = teardown := by
  rw [declared, Option.any_some, decide_eq_true_iff]
  exact eq_comm

theorem findMethod?_trackTarget (declared : t.ownTeardown? c.disposal = some (teardown, own))
    (owned : key.owner = target.typeName) :
    (m.trackTarget c target t (.existing teardown)).findMethod? key =
      (m.findMethod? key).map fun d => d.rewritten c (c.insertions (some target) [] t key d) := by
  show ((m.instrumented c target t).releaseIn teardown _).findMethod? key = _
  rw [findMethod?_releaseIn, findMethod?_instrumented owned, Option.map_map]
  congr 1
  funext d
  rw [Function.comp_apply, rewritten_instrumented]
  split
  · next here =>
    have last : (c.insertions (some target) [] t key d).last =
        releaseField (t.fieldRef (c.trackingField t)) c.collaborators.containerRelease := by
      simp only [WeaveContext.insertions, (any_own_iff declared).2 here, if_true,
        Option.isSome_some, List.flatMap_nil, List.append_nil, releaseField]
    rw [MethodDef.released_rewritten c (fun i listed => by cases listed) fun i listed =>
      (straight_releaseField _ _ i listed).target]
    exact congrArg (fun run => d.rewritten c
      { c.insertions (some target) [] t key d with last := run }) last.symm
  · next other =>
    have last : (c.insertions (some target) [] t key d).last = [] := by
      simp only [WeaveContext.insertions, mt (any_own_iff declared).1 other, if_false,
        Bool.false_eq_true]
    exact congrArg (fun run => d.rewritten c
      { c.insertions (some target) [] t key d with last := run }) last.symm

theorem findMethod?_releaseTarget (getters : List MethodRef) (target : Target)
    (teardown key : MethodKey) (m : Module) :
    (m.releaseTarget c getters target (.existing teardown)).findMethod? key =
      (m.findMethod? key).map fun d => if key = teardown then
        getters.foldl (fun d getter =>
          d.released (releaseProperty getter c.collaborators.contractRelease)) d
      else d := by
  show (getters.foldl (fun m getter =>
    m.releaseIn teardown (releaseProperty getter c.collaborators.contractRelease)) m).findMethod?
      key = _
  induction getters generalizing m with
  | nil => simp
  | cons getter rest ih =>
    rw [List.foldl_cons, ih, findMethod?_releaseIn, Option.map_map]
    congr 1
    funext d
    rw [Function.comp_apply]
    split <;> rfl

/-- The command pass puts the releases of the getters behind what the handle pass has left. -/
theorem rewritten_releaseTarget (declared : t.ownTeardown? c.disposal = some (teardown, own))
    (handles : Option Target) (d : MethodDef) :
    (if key = teardown then getters.foldl (fun d getter =>
        d.released (releaseProperty getter c.collaborators.contractRelease))
          (d.rewritten c (c.insertions handles [] t key d))
      else d.rewritten c (c.insertions handles [] t key d)) =
      d.rewritten c (c.insertions handles getters t key d) := by
  rw [WeaveContext.insertions_getters getters]
  split
  · next here =>
    rw [if_pos ((any_own_iff declared).2 here),
      MethodDef.foldl_released_rewritten WeaveContext.straight_insertions]
  · next other => rw [if_neg (mt (any_own_iff declared).1 other), List.append_nil]

end Module

/-! ## The passes -/

namespace Weave

open ReleaseWeaver.Module

variable {c : WeaveContext} {capability : TypeRef} {target : Target} {targets : List Target}
  {m m' : Module} {entries : List TargetReport} {r : Option WeaveError} {name : String}
  {t : TypeDef} {teardown : MethodKey}

theorem findMethod?_congr {key : MethodKey} (same : m'.findType? key.owner = m.findType? key.owner) :
    m'.findMethod? key = m.findMethod? key := by
  rw [findMethod?, findMethod?, same]

/-- The handle pass as a round of its targets. -/
theorem TrackPass.rounds (pass : TrackPass c targets m entries none m')
    (settled : Settled c targets m) : Rounds c (handlePass c) targets m m' := by
  generalize ended : (none : Option WeaveError) = r at pass
  induction pass with
  | done => exact .done
  | refused known refused _ ih => exact .refused known refused (ih settled.tail ended)
  | @woven target _ m t _ _ _ _ known planned _ _ ih =>
    obtain ⟨teardown, rfl⟩ := settled _ List.mem_cons_self _ _ known planned
    exact .turn known planned
      (ih (settled.tail.of_keeps (keeps_trackTarget c target t teardown m)) ended)
  | clash => cases ended

/-- The command pass as a round of its targets. -/
theorem ReleasePass.rounds (pass : ReleasePass c capability targets m entries m')
    (settled : Settled c targets m) : Rounds c (commandPass c capability) targets m m' := by
  induction pass with
  | done => exact .done
  | refused known refused _ ih => exact .refused known refused (ih settled.tail)
  | @woven target _ m t _ _ _ known planned _ ih =>
    obtain ⟨teardown, rfl⟩ := settled _ List.mem_cons_self _ _ known planned
    exact .turn known planned
      (ih (settled.tail.of_keeps (keeps_releaseTarget c _ target teardown m)))

/-- What the handle pass makes of the methods of a target whose plan does not refuse it. -/
theorem Rounds.findMethod?_handles (rounds : Rounds c (handlePass c) targets m m')
    (once : (targets.map Target.typeName).Nodup) (listed : target ∈ targets)
    (known : m.findType? target.typeName = some t)
    (planned : requiredPlan c t m = .ok (.existing teardown)) {key : MethodKey}
    (owned : key.owner = target.typeName) : m'.findMethod? key =
      (m.findMethod? key).map fun d => d.rewritten c (c.insertions (some target) [] t key d) := by
  obtain ⟨before, _, known', made⟩ :=
    rounds.findType?_turn (lawful_handles c) once listed known planned
  obtain ⟨own, _, declared, _⟩ := ownTeardown?_of_requiredPlan planned
  have same : before.findMethod? key = m.findMethod? key :=
    findMethod?_congr (owned ▸ known'.trans known.symm)
  rw [findMethod?_congr (owned ▸ made), ← same]
  exact findMethod?_trackTarget declared owned

/-- What the command pass makes of the methods of a target whose plan does not refuse it. -/
theorem Rounds.findMethod?_commands (rounds : Rounds c (commandPass c capability) targets m m')
    (once : (targets.map Target.typeName).Nodup) (listed : target ∈ targets)
    (known : m.findType? target.typeName = some t)
    (planned : requiredPlan c t m = .ok (.existing teardown)) {key : MethodKey}
    (owned : key.owner = target.typeName) : m'.findMethod? key =
      (m.findMethod? key).map fun d => if key = teardown then
        (releasableGetters c capability m target t).foldl (fun d getter =>
          d.released (releaseProperty getter c.collaborators.contractRelease)) d
      else d := by
  obtain ⟨before, kept, known', made⟩ :=
    rounds.findType?_turn (lawful_commands c capability) once listed known planned
  have same : before.findMethod? key = m.findMethod? key :=
    findMethod?_congr (owned ▸ known'.trans known.symm)
  rw [findMethod?_congr (owned ▸ made), ← same,
    ← kept.releasableGetters capability target known known']
  exact findMethod?_releaseTarget _ target teardown key before

/-- A target that the handle pass reports released has a plan, and its entry counts what there is
before the pass. -/
theorem TrackPass.entry_released (pass : TrackPass c targets m entries r m')
    (settled : Settled c targets m) (once : (targets.map Target.typeName).Nodup)
    {entry : TargetReport} (reported : entry ∈ entries) (released : entry.isReleased = true) :
    entry.target ∈ targets ∧ ∃ t teardown, m.findType? entry.typeName = some t ∧
      requiredPlan c t m = .ok (.existing teardown) ∧ entry = entry.target.trackedEntry c m := by
  induction pass with
  | done | clash => cases reported
  | refused _ _ _ ih =>
    obtain rfl | later := List.mem_cons.1 reported
    · cases released
    · obtain ⟨listed, rest⟩ := ih settled.tail (List.nodup_cons.1 once).2 later
      exact ⟨List.mem_cons_of_mem _ listed, rest⟩
  | @woven other rest m t' _ _ _ m' known planned _ _ ih =>
    obtain ⟨teardown, rfl⟩ := settled _ List.mem_cons_self _ _ known planned
    obtain ⟨first, once'⟩ := List.nodup_cons.1 once
    obtain rfl | later := List.mem_cons.1 reported
    · exact ⟨List.mem_cons_self, t', teardown, known, planned, rfl⟩
    · have kept := keeps_trackTarget c other t' teardown m
      obtain ⟨listed, t, teardown', known', planned', same⟩ :=
        ih (settled.tail.of_keeps kept) once' later
      have ne : entry.typeName ≠ other.typeName :=
        fun same => first (same ▸ List.mem_map_of_mem listed)
      have type : (m.trackTarget c other t' (.existing teardown)).findType? entry.typeName =
          m.findType? entry.typeName :=
        findType?_trackTarget_of_ne known (owner_of_requiredPlan known planned) ne
      refine ⟨List.mem_cons_of_mem _ listed, t, teardown', type ▸ known',
        (kept.requiredPlan (type ▸ known') known').symm.trans planned', same.trans ?_⟩
      rw [Target.trackedEntry, Target.trackedEntry, Target.sites, Target.sites,
        show entry.target.typeName = entry.typeName from rfl, type]

/-- A target that the command pass reports released has a plan. -/
theorem ReleasePass.entry_released (pass : ReleasePass c capability targets m entries m')
    (settled : Settled c targets m) (once : (targets.map Target.typeName).Nodup)
    {entry : TargetReport} (reported : entry ∈ entries) (released : entry.isReleased = true) :
    entry.target ∈ targets ∧ entry.registrations = 0 ∧ ∃ t teardown,
      m.findType? entry.typeName = some t ∧ requiredPlan c t m = .ok (.existing teardown) := by
  induction pass with
  | done => cases reported
  | refused _ _ _ ih =>
    obtain rfl | later := List.mem_cons.1 reported
    · cases released
    · obtain ⟨listed, rest⟩ := ih settled.tail (List.nodup_cons.1 once).2 later
      exact ⟨List.mem_cons_of_mem _ listed, rest⟩
  | @woven other rest m t' _ _ m' known planned _ ih =>
    obtain ⟨teardown, rfl⟩ := settled _ List.mem_cons_self _ _ known planned
    obtain ⟨first, once'⟩ := List.nodup_cons.1 once
    obtain rfl | later := List.mem_cons.1 reported
    · exact ⟨List.mem_cons_self, rfl, t', teardown, known, planned⟩
    · have kept :=
        keeps_releaseTarget c (releasableGetters c capability m other t') other teardown m
      obtain ⟨listed, none, t, teardown', known', planned'⟩ :=
        ih (settled.tail.of_keeps kept) once' later
      have ne : entry.typeName ≠ other.typeName :=
        fun same => first (same ▸ List.mem_map_of_mem listed)
      have type := findType?_releaseTarget_of_ne (c := c)
        (releasableGetters c capability m other t') (owner_of_requiredPlan known planned) ne m
      exact ⟨List.mem_cons_of_mem _ listed, none, t, teardown', type ▸ known',
        (kept.requiredPlan (type ▸ known') known').symm.trans planned'⟩

end Weave

end ReleaseWeaver
