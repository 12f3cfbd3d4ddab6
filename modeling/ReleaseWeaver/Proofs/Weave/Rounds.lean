import ReleaseWeaver.Proofs.Weave.Settled

/-
  A pass as a round of its targets. A target is refused for a fault of its own, or it has its turn,
  and a turn changes nothing but the type of the target. So whether a target is refused, what its
  entry says, which messages it causes and what its turn makes of it can all be told from the
  module that the round starts from.
-/

namespace ReleaseWeaver

namespace Module

variable {m m' : Module} {c : WeaveContext} {target : Target} {t : TypeDef} {teardown : MethodKey}
  {name : String}

/-! ## Other types -/

theorem findType?_modifyType_of_ne (m : Module) {owner : String} (other : name ≠ owner)
    (f : TypeDef → TypeDef) : (m.modifyType owner f).findType? name = m.findType? name := by
  rw [findType?_modifyType]
  cases known : m.findType? name with
  | none => rfl
  | some t =>
    have named : t.definitionName = name := (mem_of_findType? known).2
    rw [Option.map_some, changeNamed_of_ne (named ▸ other)]

theorem findType?_instrumented_of_ne (known : m.findType? target.typeName = some t)
    (other : name ≠ target.typeName) :
    (m.instrumented c target t).findType? name = m.findType? name := by
  have named : t.definitionName = target.typeName := (mem_of_findType? known).2
  have all (keys : List MethodKey) (owned : ∀ key ∈ keys, key.owner = target.typeName)
      (m' : Module) : (m'.registerAll c (t.fieldRef (c.trackingField t)) keys).findType? name =
        m'.findType? name := by
    induction keys generalizing m' with
    | nil => rfl
    | cons key rest ih =>
      obtain ⟨here, further⟩ := List.forall_mem_cons.1 owned
      exact (ih further _).trans (findType?_modifyType_of_ne m' (here ▸ other) _)
  rw [instrumented, all _ (fun key listed => ((Target.mem_keys_methods known).1 listed).1),
    instrumentConstructors]
  dsimp only
  rw [findType?_modifyType_of_ne _ other, withField, findType?_modifyType_of_ne _ (named ▸ other)]

theorem findType?_trackTarget_of_ne (known : m.findType? target.typeName = some t)
    (owned : teardown.owner = target.typeName) (other : name ≠ target.typeName) :
    (m.trackTarget c target t (.existing teardown)).findType? name = m.findType? name := by
  show ((m.instrumented c target t).releaseIn teardown _).findType? name = _
  rw [releaseIn, modifyMethod, findType?_modifyType_of_ne _ (owned ▸ other),
    findType?_instrumented_of_ne known other]

theorem findType?_releaseTarget_of_ne (getters : List MethodRef)
    (owned : teardown.owner = target.typeName) (other : name ≠ target.typeName) (m : Module) :
    (m.releaseTarget c getters target (.existing teardown)).findType? name = m.findType? name := by
  show (getters.foldl (fun m getter =>
    m.releaseIn teardown (releaseProperty getter c.collaborators.contractRelease)) m).findType? name
      = _
  induction getters generalizing m with
  | nil => rfl
  | cons getter rest ih =>
    exact (ih _).trans (findType?_modifyType_of_ne m (owned ▸ other) _)

/-! ## Headers -/

theorem header_ensureTeardown (m : Module) (t : TypeDef) (plan : TeardownPlan) :
    (m.ensureTeardown t plan).1.header = m.header := by
  unfold ensureTeardown
  split
  · rfl
  · split
    · unfold synthesizeTeardown
      dsimp only
      split <;> rfl
    · rfl

theorem header_trackTarget (c : WeaveContext) (target : Target) (t : TypeDef) (teardown : MethodKey)
    (m : Module) : (m.trackTarget c target t (.existing teardown)).header = m.header := by
  have all (keys : List MethodKey) (m' : Module) :
      (m'.registerAll c (t.fieldRef (c.trackingField t)) keys).header = m'.header := by
    induction keys generalizing m' with
    | nil => rfl
    | cons key rest ih => exact ih _
  exact all _ _

theorem header_releaseTarget (c : WeaveContext) (getters : List MethodRef) (target : Target)
    (teardown : MethodKey) (m : Module) :
    (m.releaseTarget c getters target (.existing teardown)).header = m.header := by
  show (getters.foldl (fun m getter =>
    m.releaseIn teardown (releaseProperty getter c.collaborators.contractRelease)) m).header = _
  induction getters generalizing m with
  | nil => rfl
  | cons getter rest ih => exact ih _

end Module

namespace Weave

open ReleaseWeaver.Module Weaving

variable {c : WeaveContext} {capability : TypeRef} {target : Target} {targets : List Target}
  {m m' : Module} {s : Session} {name : String} {t : TypeDef} {teardown : MethodKey}

/-- A plan that keeps a teardown keeps the one that the type declares. -/
theorem ownTeardown?_of_requiredPlan (planned : requiredPlan c t m = .ok (.existing teardown)) :
    ∃ own exit, t.ownTeardown? c.disposal = some (teardown, own) ∧ own.finalExit? = some exit := by
  unfold requiredPlan at planned
  split at planned
  · cases planned
  unfold planTeardown at planned
  split at planned
  · next key own declared =>
    split at planned
    · next final =>
      cases planned
      obtain ⟨exit, final⟩ := Option.isSome_iff_exists.1 final
      exact ⟨own, exit, declared, final⟩
    · cases planned
  · split at planned
    · cases planned
    · split at planned
      · cases planned
      · split at planned <;> cases planned

theorem owner_of_requiredPlan (known : m.findType? target.typeName = some t)
    (planned : requiredPlan c t m = .ok (.existing teardown)) :
    teardown.owner = target.typeName := by
  obtain ⟨listed, named⟩ := mem_of_findType? known
  obtain ⟨own, _, declared, _⟩ := ownTeardown?_of_requiredPlan planned
  exact (findMethod?_of_ownTeardown? listed declared).1.trans named

/-! ## The two passes -/

/-- What a pass does at the turn of a target. -/
structure PassKind where
  weave : Target → Weaving Unit
  /-- Whether something in a type stands against its turn. -/
  clashes : Module → TypeDef → Bool
  turn : Target → TypeDef → MethodKey → Module → Module
  entry : Target → TypeDef → Module → TargetReport
  said : Target → TypeDef → Log

def handlePass (c : WeaveContext) : PassKind where
  weave := trackHandles c
  clashes := fun m t => m.declaresField t.definitionName (c.trackingField t).name
  turn := fun target t teardown m => m.trackTarget c target t (.existing teardown)
  entry := fun target _ m => target.trackedEntry c m
  said := exclusions c

def commandPass (c : WeaveContext) (capability : TypeRef) : PassKind where
  weave := releaseCommands c capability
  clashes := fun _ _ => false
  turn := fun target t teardown m =>
    m.releaseTarget c (releasableGetters c capability m target t) target (.existing teardown)
  entry := fun target t m => target.releasedEntry (releasableGetters c capability m target t)
  said := fun _ _ => []

/-- How the turn of a target goes, and what it leaves alone. -/
structure PassKind.Lawful (p : PassKind) (c : WeaveContext) : Prop where
  refused : ∀ {target : Target} {s : Session} {t e}, s.module.findType? target.typeName = some t →
    requiredPlan c t s.module = .error e →
    p.weave target (begun target s) = .error (.target e) (begun target s)
  clash : ∀ {target : Target} {s : Session} {t plan}, s.module.findType? target.typeName = some t →
    requiredPlan c t s.module = .ok plan → p.clashes s.module t = true →
    ∃ name s', p.weave target (begun target s) = .error (.trackingFieldExists name) s'
  woven : ∀ {target : Target} {s : Session} {t teardown},
    s.module.findType? target.typeName = some t →
    requiredPlan c t s.module = .ok (.existing teardown) → p.clashes s.module t = false →
    p.weave target (begun target s) = .ok ()
      { begun target s with
        module := p.turn target t teardown s.module
        log := (begun target s).log ++ p.said target t
        entry := p.entry target t s.module }
  keeps : ∀ target t teardown (m : Module), m.Keeps (p.turn target t teardown m)
  header : ∀ target t teardown (m : Module), (p.turn target t teardown m).header = m.header
  others : ∀ {target : Target} {t teardown} {m : Module} {name},
    m.findType? target.typeName = some t → teardown.owner = target.typeName → name ≠ target.typeName →
    (p.turn target t teardown m).findType? name = m.findType? name
  entry_kept : ∀ {target : Target} {t} {m m' : Module}, m.Keeps m' →
    m.findType? target.typeName = some t → m'.findType? target.typeName = some t →
    p.entry target t m' = p.entry target t m
  clashes_kept : ∀ {t : TypeDef} {m m' : Module},
    m'.findType? t.definitionName = m.findType? t.definitionName → p.clashes m' t = p.clashes m t

theorem lawful_handles (c : WeaveContext) : (handlePass c).Lawful c where
  refused := fun known refused => trackHandles_refused known refused
  clash := fun known planned clash => ⟨_, _, trackHandles_clash known planned clash⟩
  woven := fun {target s _ _} known planned free =>
    trackHandles_woven (s := begun target s) known planned free rfl
  keeps := fun target t teardown m => keeps_trackTarget c target t teardown m
  header := header_trackTarget c
  others := fun known owned other => findType?_trackTarget_of_ne known owned other
  entry_kept := fun _ known known' => by
    simp only [handlePass, Target.trackedEntry, Target.sites, known, known']
  clashes_kept := fun same => by
    simp only [handlePass, declaresField, same]

theorem lawful_commands (c : WeaveContext) (capability : TypeRef) :
    (commandPass c capability).Lawful c where
  refused := fun known refused => releaseCommands_refused capability known refused
  clash := fun _ _ clash => by cases clash
  woven := fun {target s t teardown} known planned _ => by
    have woven := releaseCommands_woven (s := begun target s) capability known planned rfl
    simp only [commandPass, List.append_nil]
    exact woven
  keeps := fun target t teardown m => keeps_releaseTarget c _ target teardown m
  header := fun target _ teardown m => header_releaseTarget c _ target teardown m
  others := fun _ owned other => findType?_releaseTarget_of_ne _ owned other _
  entry_kept := fun {target t m m'} kept known known' => by
    simp only [commandPass, kept.releasableGetters capability target known known']
  clashes_kept := fun _ => rfl

namespace PassKind

/-- What a target's entry says. -/
def report (p : PassKind) (c : WeaveContext) (m : Module) (target : Target) : TargetReport :=
  match m.findType? target.typeName with
  | none => target.entry
  | some t => match requiredPlan c t m with
    | .error e => target.refusal e
    | .ok _ => p.entry target t m

/-- Which messages a target causes. -/
def transcript (p : PassKind) (c : WeaveContext) (m : Module) (target : Target) : Log :=
  { level := .info, text := "Weaving target: " ++ target.typeName } ::
    match m.findType? target.typeName with
    | none => []
    | some t => match requiredPlan c t m with
      | .error e => [{ level := .error, text := e.message }]
      | .ok _ => p.said target t
        ++ [{ level := .info, text := "Completed weaving target: " ++ target.typeName }]

/-- A target that is not refused meets with something that stands against its turn. -/
def Clash (p : PassKind) (c : WeaveContext) (m : Module) (target : Target) : Prop :=
  ∃ t plan, m.findType? target.typeName = some t ∧ requiredPlan c t m = .ok plan ∧
    p.clashes m t = true

variable {p : PassKind}

/-- The turns of other targets have no part in any of these. -/
theorem Lawful.kept (lawful : p.Lawful c) (kept : m.Keeps m')
    (same : m'.findType? target.typeName = m.findType? target.typeName) :
    p.report c m' target = p.report c m target ∧
      p.transcript c m' target = p.transcript c m target ∧
      (p.Clash c m' target ↔ p.Clash c m target) := by
  cases known : m.findType? target.typeName with
  | none =>
    have known' := same.trans known
    simp only [report, transcript, Clash, known, known', reduceCtorEq, false_and, exists_false,
      and_self]
  | some t =>
    have known' := same.trans known
    have named : t.definitionName = target.typeName := (mem_of_findType? known).2
    have plan : requiredPlan c t m' = requiredPlan c t m := kept.requiredPlan known known'
    have entry := lawful.entry_kept kept known known'
    have clashes : p.clashes m' t = p.clashes m t := lawful.clashes_kept (by rw [named]; exact same)
    refine ⟨?_, ?_, ?_⟩
    · simp only [report, known, known', plan, entry]
    · simp only [transcript, known, known', plan]
    · simp only [Clash, known, known', Option.some.injEq]
      constructor
      · rintro ⟨_, plan', rfl, planned, clash⟩
        exact ⟨t, plan', rfl, plan.symm.trans planned, clashes.symm.trans clash⟩
      · rintro ⟨_, plan', rfl, planned, clash⟩
        exact ⟨t, plan', rfl, plan.trans planned, clashes.trans clash⟩

end PassKind

/-! ## Rounds -/

/-- A target is refused, or it has its turn. -/
inductive Rounds (c : WeaveContext) (p : PassKind) : List Target → Module → Module → Prop where
  | done {m : Module} : Rounds c p [] m m
  | refused {target : Target} {rest} {m m' : Module} {t e} : m.findType? target.typeName = some t →
      requiredPlan c t m = .error e → Rounds c p rest m m' → Rounds c p (target :: rest) m m'
  | turn {target : Target} {rest} {m m' : Module} {t teardown} :
      m.findType? target.typeName = some t → requiredPlan c t m = .ok (.existing teardown) →
      Rounds c p rest (p.turn target t teardown m) m' → Rounds c p (target :: rest) m m'

variable {p : PassKind}

namespace Rounds

variable (lawful : p.Lawful c) (rounds : Rounds c p targets m m')

include lawful rounds

theorem keeps : m.Keeps m' := by
  induction rounds with
  | done => exact .refl _
  | refused _ _ _ ih => exact ih
  | turn _ _ _ ih => exact (lawful.keeps _ _ _ _).trans ih

theorem header : m'.header = m.header := by
  induction rounds with
  | done => rfl
  | refused _ _ _ ih => exact ih
  | turn _ _ _ ih => exact ih.trans (lawful.header _ _ _ _)

/-- A type that no target has, or only one that is refused, stays as it is. -/
theorem findType?_idle (idle : ∀ target ∈ targets, name = target.typeName → ∀ t plan,
      m.findType? name = some t → requiredPlan c t m ≠ .ok plan) :
    m'.findType? name = m.findType? name := by
  induction rounds with
  | done => rfl
  | refused _ _ _ ih =>
    exact ih fun target listed => idle target (List.mem_cons_of_mem _ listed)
  | @turn first rest m m' t teardown known planned rounds ih =>
    have ne : name ≠ first.typeName := by
      rintro rfl
      exact idle first List.mem_cons_self rfl t _ known planned
    have same := lawful.others known (owner_of_requiredPlan known planned) ne
    have kept := lawful.keeps first t teardown m
    rw [ih, same]
    intro target listed here u plan known' planned'
    rw [same] at known'
    refine idle target (List.mem_cons_of_mem _ listed) here u plan known' ?_
    rw [← planned']
    exact (kept.requiredPlan known' (same.trans known')).symm

/-- What a round makes of a target that is not refused is what its turn makes of it. -/
theorem findType?_turn (once : (targets.map Target.typeName).Nodup) (listed : target ∈ targets)
    (known : m.findType? target.typeName = some t)
    (planned : requiredPlan c t m = .ok (.existing teardown)) :
    ∃ before, m.Keeps before ∧ before.findType? target.typeName = some t ∧
      m'.findType? target.typeName =
        (p.turn target t teardown before).findType? target.typeName := by
  induction rounds with
  | done => cases listed
  | refused known' refused _ ih =>
    obtain rfl | later := List.mem_cons.1 listed
    · rw [known] at known'
      cases known'
      rw [planned] at refused
      cases refused
    · exact ih (List.nodup_cons.1 once).2 later known planned
  | @turn first rest m m' u teardown' known' planned' rounds ih =>
    obtain ⟨fresh, once'⟩ := List.nodup_cons.1 once
    obtain rfl | later := List.mem_cons.1 listed
    · rw [known] at known'
      cases known'
      rw [planned] at planned'
      cases planned'
      refine ⟨m, .refl m, known, findType?_idle lawful rounds fun later listed same => ?_⟩
      exact absurd (same ▸ List.mem_map_of_mem listed) fresh
    · have ne : target.typeName ≠ first.typeName :=
        fun same => fresh (same ▸ List.mem_map_of_mem later)
      have same := lawful.others known' (owner_of_requiredPlan known' planned') ne
      have kept := lawful.keeps first u teardown' m
      obtain ⟨before, kept', knownB, made⟩ := ih once' later (same.trans known)
        ((kept.requiredPlan known (same.trans known)).trans planned)
      exact ⟨before, kept.trans kept', knownB, made⟩

end Rounds

/-! ## A pass -/

/-- The first target is done, and then the others. -/
theorem Rounds.cons {m₁ : Module} (first : Rounds c p [target] m m₁)
    (rest : Rounds c p targets m₁ m') : Rounds c p (target :: targets) m m' := by
  cases first with
  | refused known refused done =>
    cases done
    exact .refused known refused rest
  | turn known planned done =>
    cases done
    exact .turn known planned rest

/-- The pass goes on behind a target that is refused or has its turn, and ends at a clash. -/
theorem PassKind.Lawful.weaveTarget_run (lawful : p.Lawful c)
    (known : s.module.findType? target.typeName = some t)
    (settled : ∀ plan, requiredPlan c t s.module = .ok plan → ∃ key, plan = .existing key) :
    (¬p.Clash c s.module target ∧ ∃ s', weaveTarget p.weave target s = .ok () s' ∧
        Rounds c p [target] s.module s'.module ∧
        s'.report.targets = s.report.targets ++ [p.report c s.module target] ∧
        s'.log = s.log ++ p.transcript c s.module target) ∨
      p.Clash c s.module target ∧ ∃ name s',
        weaveTarget p.weave target s = .error (.trackingFieldExists name) s' := by
  have clash_iff : p.Clash c s.module target ↔
      ∃ plan, requiredPlan c t s.module = .ok plan ∧ p.clashes s.module t = true := by
    simp only [PassKind.Clash, known, Option.some.injEq, exists_and_left, exists_eq_left']
  cases planned : requiredPlan c t s.module with
  | error e =>
    obtain ⟨s', run, module, report, log⟩ := weaveTarget_refused (lawful.refused known planned)
    refine .inl ⟨fun clash => ?_, s', run, ?_, ?_, ?_⟩
    · obtain ⟨plan, planned', _⟩ := clash_iff.1 clash
      rw [planned] at planned'
      cases planned'
    · rw [module]
      exact .refused known planned .done
    · simp only [report, WeaveReport.push, PassKind.report, known, planned]
      rfl
    · simp only [log, PassKind.transcript, known, planned, begun, List.append_assoc]
      rfl
  | ok plan =>
    obtain ⟨teardown, rfl⟩ := settled plan planned
    cases clash : p.clashes s.module t with
    | true =>
      obtain ⟨name, s', failed⟩ := lawful.clash known planned clash
      exact .inr ⟨clash_iff.2 ⟨_, planned, clash⟩, name, s', weaveTarget_clash failed⟩
    | false =>
      obtain ⟨s', run, module, report, log⟩ := weaveTarget_woven (lawful.woven known planned clash)
      refine .inl ⟨fun clash' => ?_, s', run, ?_, ?_, ?_⟩
      · obtain ⟨_, _, clash'⟩ := clash_iff.1 clash'
        rw [clash] at clash'
        cases clash'
      · rw [module]
        exact .turn known planned .done
      · simp only [report, WeaveReport.push, PassKind.report, known, planned]
        rfl
      · simp only [log, PassKind.transcript, known, planned, begun, List.append_assoc,
          List.cons_append, List.nil_append]

/-- A pass comes to its end, round its targets, unless there is a clash at one of them. -/
theorem PassKind.Lawful.forM_run (lawful : p.Lawful c)
    (known : ∀ target ∈ targets, ∃ t, s.module.findType? target.typeName = some t)
    (settled : Settled c targets s.module) (once : (targets.map Target.typeName).Nodup) :
    ((∀ target ∈ targets, ¬p.Clash c s.module target) ∧ ∃ s',
        targets.forM (weaveTarget p.weave) s = .ok () s' ∧
        Rounds c p targets s.module s'.module ∧
        s'.report.targets = s.report.targets ++ targets.map (p.report c s.module) ∧
        s'.log = s.log ++ targets.flatMap (p.transcript c s.module)) ∨
      (∃ target ∈ targets, p.Clash c s.module target) ∧ ∃ name s',
        targets.forM (weaveTarget p.weave) s = .error (.trackingFieldExists name) s' := by
  induction targets generalizing s with
  | nil => exact .inl ⟨by simp, s, rfl, .done, by simp, by simp⟩
  | cons target rest ih =>
    obtain ⟨t, found⟩ := known target List.mem_cons_self
    obtain ⟨fresh, once'⟩ := List.nodup_cons.1 once
    obtain ⟨free, s₁, run, first, reported, logged⟩ | ⟨clash, name, s', stop⟩ :=
      lawful.weaveTarget_run found fun plan => settled target List.mem_cons_self t plan found
    case inr => exact .inr ⟨⟨target, List.mem_cons_self, clash⟩, name, s', bind_error stop⟩
    have kept : s.module.Keeps s₁.module := first.keeps lawful
    -- The targets behind are told from the module before the turn.
    have same (other) (listed : other ∈ rest) := lawful.kept kept <|
      first.findType?_idle lawful fun only inside here =>
        absurd (List.mem_singleton.1 inside ▸ here ▸ List.mem_map_of_mem listed) fresh
    have reports : rest.map (p.report c s₁.module) = rest.map (p.report c s.module) :=
      List.map_congr_left fun other listed => (same other listed).1
    have transcripts : rest.flatMap (p.transcript c s₁.module) =
        rest.flatMap (p.transcript c s.module) :=
      congrArg List.flatten (List.map_congr_left fun other listed => (same other listed).2.1)
    have known' := known_of_shapes kept.shapes fun other listed =>
      known other (List.mem_cons_of_mem target listed)
    obtain ⟨free', s', run', rounds, reported', logged'⟩ | ⟨⟨other, listed, clash⟩, name, s', stop⟩ :=
      ih known' (settled.tail.of_keeps kept) once'
    · refine .inl ⟨List.forall_mem_cons.2 ⟨free, fun other listed =>
        mt (same other listed).2.2.2 (free' other listed)⟩, s', (bind_ok run).trans run',
        first.cons rounds, ?_, ?_⟩
      · rw [reported', reported, reports, List.append_assoc]
        rfl
      · rw [logged', logged, transcripts, List.append_assoc]
        rfl
    · exact .inr ⟨⟨other, List.mem_cons_of_mem _ listed, (same other listed).2.2.1 clash⟩, name, s',
        (bind_ok run).trans stop⟩

end Weave

end ReleaseWeaver
