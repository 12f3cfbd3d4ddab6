import ReleaseWeaver.Proofs.Metadata.Consistency
import ReleaseWeaver.Proofs.Weave.Outcome

/-
  The life of a module: a host adds references, types and members to it, changes methods, and has it
  woven, in any order. Whatever a weaving does, up to its end or up to the error that stops it, is a
  series of such changes and leaves the shapes of the types alone. Main statement: all along a life
  that begins with an empty module, what the store says in several places agrees, the store and the
  module answer alike, and what is refused changes neither.
-/

namespace ReleaseWeaver

namespace Module

variable {m m' m'' : Module} {c : WeaveContext} {target : Target} {t : TypeDef} {owner : String}
  {plan : TeardownPlan}

/-! ## Weaving as changes -/

def changeAll (m : Module) (changes : List Change) : Module :=
  changes.foldl (fun m change => (m.carryOut change).2) m

/-- Changes that leave the shapes alone lead from one module to the other. -/
structure Leads (m m' : Module) : Prop where
  changes : ∃ changes, m.changeAll changes = m'
  shapes : m'.shapes = m.shapes

namespace Leads

theorem refl (m : Module) : m.Leads m := ⟨⟨[], rfl⟩, rfl⟩

theorem trans (first : m.Leads m') (second : m'.Leads m'') : m.Leads m'' := by
  obtain ⟨⟨changes, rfl⟩, shapes⟩ := first
  obtain ⟨⟨changes', rfl⟩, shapes'⟩ := second
  exact ⟨⟨changes ++ changes', List.foldl_append⟩, shapes'.trans shapes⟩

theorem foldl {α : Type} {f : Module → α → Module} (each : ∀ (m : Module) a, m.Leads (f m a))
    (xs : List α) (m : Module) : m.Leads (xs.foldl f m) := by
  induction xs generalizing m with
  | nil => exact refl m
  | cons a rest ih => exact (each m a).trans (ih (f m a))

end Leads

theorem leads_modifyMethod (m : Module) (key : MethodKey) (f : MethodDef → MethodDef) :
    m.Leads (m.modifyMethod key f) :=
  ⟨⟨[.changeMethod key f], rfl⟩, shapes_modifyMethod m key f⟩

theorem leads_addMethod (known : m.findType? owner = some t) (d : MethodDef) :
    m.Leads (m.addMethod owner d) := by
  refine ⟨⟨[.addMethod owner d], ?_⟩, shapes_addMethod m owner d⟩
  show (m.carryOut _).2 = _
  rw [carryOut, change, known]
  rfl

theorem leads_withField (known : m.findType? owner = some t) {d : FieldDef}
    (free : m.declaresField owner d.name = false) : m.Leads (m.withField owner d) := by
  refine ⟨⟨[.addField owner d], ?_⟩, shapes_withField m owner d⟩
  show (m.carryOut _).2 = _
  rw [carryOut, change, known, addField, free]
  rfl

/-- Change the methods of a type that come before a place. -/
def changedBefore (place : Nat) (f : MethodDef → MethodDef) (t : TypeDef) : TypeDef :=
  { t with methods := t.methods.mapIdx fun i d => if i < place then f d else d }

theorem modifyMethod_changedBefore (m : Module) (owner : String) (place : Nat)
    (f : MethodDef → MethodDef) :
    (m.modifyType owner (changedBefore place f)).modifyMethod ⟨owner, place⟩ f =
      m.modifyType owner (changedBefore (place + 1) f) := by
  have methods (ds : List MethodDef) :
      (ds.mapIdx fun i d => if i < place then f d else d).modify place f =
        ds.mapIdx fun i d => if i < place + 1 then f d else d := by
    refine List.ext_getElem? fun i => ?_
    rw [List.getElem?_modify, List.getElem?_mapIdx, List.getElem?_mapIdx]
    cases ds[i]? with
    | none => rfl
    | some d =>
      by_cases here : place = i
      · simp [here]
      · have same : i < place + 1 ↔ i < place := by omega
        simp [here, same]
  have each (t : TypeDef) : changeNamed owner (fun t => { t with
        methods := t.methods.modify place f }) (changeNamed owner (changedBefore place f) t) =
      changeNamed owner (changedBefore (place + 1) f) t := by
    by_cases here : t.definitionName = owner
    · rw [changeNamed_of_eq here, changeNamed_of_eq here, changeNamed_of_eq]
      · simp only [changedBefore, methods]
      · exact here
    · rw [changeNamed_of_ne here, changeNamed_of_ne here, changeNamed_of_ne here]
  have types : (m.types.map (changeNamed owner (changedBefore place f))).map (changeNamed owner
        fun t => { t with methods := t.methods.modify place f }) =
      m.types.map (changeNamed owner (changedBefore (place + 1) f)) := by
    rw [List.map_map]
    exact List.map_congr_left fun t _ => each t
  simp only [modifyMethod, modifyType, types]

/-- The methods of a type are changed one by one. -/
theorem leads_changeMethods (m : Module) (owner : String) (f : MethodDef → MethodDef) :
    m.Leads (m.modifyType owner fun t => { t with methods := t.methods.map f }) := by
  have before (place : Nat) : m.Leads (m.modifyType owner (changedBefore place f)) := by
    induction place with
    | zero =>
      have none : changedBefore 0 f = id := by
        funext t
        have same : (t.methods.mapIdx fun _ d => d) = t.methods :=
          List.ext_getElem? fun i => by simp
        simp [changedBefore, same]
      rw [none, modifyType_id]
      exact .refl m
    | succ place ih =>
      rw [← modifyMethod_changedBefore]
      exact ih.trans (leads_modifyMethod _ _ f)
  have all : m.modifyType owner (fun t => { t with methods := t.methods.map f }) =
      m.modifyType owner (changedBefore (m.nextMethodKey owner).index f) := by
    refine modifyType_congr fun t known => ?_
    rw [nextMethodKey_of_findType? known, changedBefore]
    congr 1
    refine List.ext_getElem? fun i => ?_
    rw [List.getElem?_map, List.getElem?_mapIdx]
    cases here : t.methods[i]? with
    | none => rfl
    | some d =>
      have inside : i < t.methods.length := (List.getElem?_eq_some_iff.1 here).1
      rw [Option.map_some, Option.map_some, if_pos inside]
  rw [all]
  exact before _

/-! ### One target -/

theorem leads_ensured (known : m.findType? owner = some t) (plan : TeardownPlan) :
    m.Leads (m.ensured owner plan).1 := by
  have named : t.definitionName = owner := (mem_of_findType? known).2
  rw [ensured, known, Option.getD_some]
  cases plan with
  | existing key => exact .refl m
  | synthesize ancestor =>
    unfold ensureTeardown
    dsimp only
    split
    · next above inherited _ _ =>
      have added := leads_addMethod (named ▸ known : m.findType? t.definitionName = some t)
        (overridingTeardown inherited (m.baseCall t above inherited))
      unfold synthesizeTeardown
      dsimp only
      split
      · exact added.trans (leads_modifyMethod _ ancestor _)
      · exact added
    · exact .refl m

theorem leads_trackTarget (known : m.findType? target.typeName = some t)
    (free : m.declaresField t.definitionName (c.trackingField t).name = false)
    (plan : TeardownPlan) : m.Leads (m.trackTarget c target t plan) := by
  have named : t.definitionName = target.typeName := (mem_of_findType? known).2
  have instrumented : m.Leads (m.instrumented c target t) := by
    refine (leads_withField (named ▸ known) free).trans ?_
    exact (leads_changeMethods _ target.typeName _).trans
      (.foldl (fun m key => leads_modifyMethod m key _) _ _)
  obtain ⟨t', known', _⟩ := findType?_of_shapes instrumented.shapes known
  exact (instrumented.trans (leads_ensured known' plan)).trans (leads_modifyMethod _ _ _)

theorem leads_releaseTarget (known : m.findType? target.typeName = some t)
    (getters : List MethodRef) (plan : TeardownPlan) :
    m.Leads (m.releaseTarget c getters target plan) :=
  (leads_ensured known plan).trans (.foldl (fun m _ => leads_modifyMethod m _ _) getters _)

/-! ### All targets -/

theorem leads_of_trackPass {targets : List Target} {entries : List TargetReport}
    {r : Option WeaveError} (pass : Weave.TrackPass c targets m entries r m') : m.Leads m' := by
  induction pass with
  | done => exact .refl _
  | refused _ _ _ ih => exact ih
  | woven known _ free _ ih => exact (leads_trackTarget known free _).trans ih
  | clash => exact .refl _

theorem leads_of_releasePass {capability : TypeRef} {targets : List Target}
    {entries : List TargetReport} (pass : Weave.ReleasePass c capability targets m entries m') :
    m.Leads m' := by
  induction pass with
  | done => exact .refl _
  | refused _ _ _ ih => exact ih
  | woven known _ _ ih => exact (leads_releaseTarget known _ _).trans ih

theorem leads_prepared (c : WeaveContext) (capability : Option TypeRef) (m : Module) :
    m.Leads (Weave.prepared c capability m) :=
  prepareTeardowns_induction m.Leads (.refl m) fun _ _ _ kept known _ =>
    kept.trans (leads_ensured known _)

/-- A run of the weaver, up to its end or up to an error, is a series of changes. -/
theorem leads_weave (m : Module) (config : Config) : m.Leads (m.weave config).module := by
  obtain ⟨e, stopped⟩ | ⟨collaborators, capability, _, _, finished⟩ := Weave.weave_cases m config
  · rw [stopped]
    exact .refl m
  · have start := leads_prepared ⟨config, collaborators, .collect m config.markers⟩ capability m
    generalize m.weave config = outcome at finished ⊢
    cases finished with
    | clash pass _ => exact start.trans (leads_of_trackPass pass)
    | woven pass _ same released =>
      have tracked := start.trans (leads_of_trackPass pass)
      cases capability with
      | none => exact same rfl ▸ tracked
      | some capability => exact tracked.trans (leads_of_releasePass (released capability rfl).2)

end Module

/-! ## Lives of modules -/

/-- What a host asks for. -/
inductive Revision where
  | change (c : Change)
  | weave (config : Config)

inductive Revision.Reply where
  | changed (result : Except Refusal Unit)
  | woven (result : Except WeaveError WeaveReport)

/-- The name of a type that has been accepted. -/
def acceptedType? : Revision × Revision.Reply → Option String
  | (.change c, .changed (.ok ())) => c.newType?
  | _ => none

/-- The names of the types that have been accepted, in order. -/
def acceptedTypes (revisions : List Revision) (replies : List Revision.Reply) : List String :=
  (revisions.zip replies).filterMap acceptedType?

theorem acceptedTypes_cons (revision : Revision) (reply : Revision.Reply)
    (revisions : List Revision) (replies : List Revision.Reply) :
    acceptedTypes (revision :: revisions) (reply :: replies) =
      (acceptedType? (revision, reply)).toList ++ acceptedTypes revisions replies := by
  rw [acceptedTypes, List.zip_cons_cons, List.filterMap_cons]
  cases acceptedType? (revision, reply) <;> rfl

namespace Module

def revise (m : Module) : Revision → Revision.Reply × Module
  | .change c => (.changed (m.carryOut c).1, (m.carryOut c).2)
  | .weave config => (.woven (m.weave config).result, (m.weave config).module)

def reviseAll (m : Module) : List Revision → List Revision.Reply × Module
  | [] => ([], m)
  | revision :: rest =>
    let (replies, m') := (m.revise revision).2.reviseAll rest
    ((m.revise revision).1 :: replies, m')

end Module

namespace ModuleStore

def changeAll (s : ModuleStore) (changes : List Change) : ModuleStore :=
  changes.foldl (fun s c => (s.carryOut c).2) s

/-- A store next to its module. It carries out the changes that a host asks for, and in a weaving
any changes that do to the module what the weaving does. -/
inductive Follows : Module → ModuleStore → List Revision → List Revision.Reply → Module →
    ModuleStore → Prop where
  | done {m s} : Follows m s [] [] m s
  | change {m s c rest replies m' s'} :
      Follows (m.carryOut c).2 (s.carryOut c).2 rest replies m' s' →
      Follows m s (.change c :: rest) (.changed (s.carryOut c).1 :: replies) m' s'
  | weave {m s config changes rest replies m' s'} :
      m.changeAll changes = (m.weave config).module →
      Follows (m.weave config).module (s.changeAll changes) rest replies m' s' →
      Follows m s (.weave config :: rest) (.woven (m.weave config).result :: replies) m' s'

theorem exists_follows (m : Module) (s : ModuleStore) (revisions : List Revision) :
    ∃ replies m' s', Follows m s revisions replies m' s' := by
  induction revisions generalizing m s with
  | nil => exact ⟨[], m, s, .done⟩
  | cons revision rest ih =>
    cases revision with
    | change c =>
      obtain ⟨replies, m', s', run⟩ := ih (m.carryOut c).2 (s.carryOut c).2
      exact ⟨_, m', s', .change run⟩
    | weave config =>
      obtain ⟨changes, same⟩ := (m.leads_weave config).changes
      obtain ⟨replies, m', s', run⟩ := ih (m.weave config).module (s.changeAll changes)
      exact ⟨_, m', s', .weave same run⟩

/-- The store says what the module says, and both are in order. -/
structure Mirrors (s : ModuleStore) (m : Module) : Prop where
  represents : s.Represents m
  keyed : s.Keyed
  consistent : m.Consistent

theorem mirrors_empty (name : String) : Mirrors {} { name } where
  represents := by
    refine ⟨rfl, rfl, rfl, fun name type => ?_, rfl, rfl, rfl⟩
    simp [findType?]
  keyed := by
    have none {α : Type} : ({} : Arena α).Consistent := fun key type => by
      simp [Arena.keysOf, Arena.declaring?]
    exact ⟨none, none, none⟩
  consistent := Module.consistent_empty name

namespace Mirrors

variable {s : ModuleStore} {m : Module}

theorem carryOut (mirrors : s.Mirrors m) (c : Change) :
    (s.carryOut c).1 = (m.carryOut c).1 ∧ (s.carryOut c).2.Mirrors (m.carryOut c).2 := by
  have alike := mirrors.represents.carryOut mirrors.keyed c
  exact ⟨alike.answer, alike.represents, alike.keyed, mirrors.consistent.carryOut c⟩

theorem changeAll (mirrors : s.Mirrors m) (changes : List Change) :
    (s.changeAll changes).Mirrors (m.changeAll changes) := by
  induction changes generalizing s m with
  | nil => exact mirrors
  | cons c rest ih => exact ih (mirrors.carryOut c).2

end Mirrors

end ModuleStore

/-- All along a life the store mirrors the module and answers like it. -/
theorem ModuleStore.Follows.mirrors {m m' : Module} {s s' : ModuleStore}
    {revisions : List Revision} {replies : List Revision.Reply}
    (run : Follows m s revisions replies m' s') (mirrors : s.Mirrors m) :
    s'.Mirrors m' ∧ m.reviseAll revisions = (replies, m') ∧
      m'.types.map TypeDef.definitionName =
        m.types.map TypeDef.definitionName ++ acceptedTypes revisions replies := by
  induction run with
  | done => exact ⟨mirrors, rfl, (List.append_nil _).symm⟩
  | @change m s c rest replies m' s' _ ih =>
    obtain ⟨answer, mirrors⟩ := mirrors.carryOut c
    obtain ⟨mirrors, revised, names⟩ := ih mirrors
    have accepted : (m.carryOut c).2.types.map TypeDef.definitionName =
        m.types.map TypeDef.definitionName ++
          (acceptedType? (.change c, .changed (m.carryOut c).1)).toList := by
      obtain ⟨e, refused⟩ | ⟨m', accepted, done⟩ := m.carryOut_cases c
      · rw [refused]
        exact (List.append_nil _).symm
      · rw [done]
        exact accepted.names
    refine ⟨mirrors, ?_, ?_⟩
    · rw [Module.reviseAll, Module.revise, answer]
      dsimp only
      rw [revised]
    · rw [names, accepted, answer, acceptedTypes_cons, List.append_assoc]
  | @weave m s config changes rest replies m' s' same _ ih =>
    obtain ⟨mirrors, revised, names⟩ := ih (same ▸ mirrors.changeAll changes)
    refine ⟨mirrors, ?_, ?_⟩
    · rw [Module.reviseAll, Module.revise]
      dsimp only
      rw [revised]
    · rw [names, names_of_shapes (m.leads_weave config).shapes, acceptedTypes_cons]
      rfl

/-- Along any life that begins with an empty module, the store of the module can follow. However it
does, it says everything in agreement, as does the module, which answers in the same way and has one
type of each name that has been accepted, in that order, found by this name and no other. What is
refused changes neither of them. -/
theorem Module.revisions_consistent (name : String) (revisions : List Revision) :
    (∃ replies m s, ModuleStore.Follows { name } {} revisions replies m s) ∧
      ∀ replies m s, ModuleStore.Follows { name } {} revisions replies m s →
        (s.Consistent ∧ s.Represents m ∧ m.Consistent) ∧
        Module.reviseAll { name } revisions = (replies, m) ∧
        m.types.map TypeDef.definitionName = acceptedTypes revisions replies ∧
        s.types.map TypeDef.definitionName = acceptedTypes revisions replies ∧
        (∀ typeName t, m.findType? typeName = some t ↔
          t ∈ m.types ∧ t.definitionName = typeName) ∧
        ∀ c e, (m.carryOut c).1 = .error e ∨ (s.carryOut c).1 = .error e →
          (m.carryOut c).2 = m ∧ (s.carryOut c).2 = s := by
  refine ⟨ModuleStore.exists_follows _ _ revisions, fun replies m s run => ?_⟩
  obtain ⟨mirrors, revised, names⟩ := run.mirrors (ModuleStore.mirrors_empty name)
  have named : m.types.map TypeDef.definitionName = acceptedTypes revisions replies := names
  refine ⟨⟨mirrors.represents.consistent mirrors.keyed mirrors.consistent, mirrors.represents,
    mirrors.consistent⟩, revised, named, mirrors.represents.names.trans named, ?_, ?_⟩
  · intro typeName t
    refine ⟨Module.mem_of_findType?, ?_⟩
    rintro ⟨listed, rfl⟩
    exact Module.findType?_of_mem listed
  · intro c e refused
    have answer : (s.carryOut c).1 = (m.carryOut c).1 := (mirrors.carryOut c).1
    have refused : (m.carryOut c).1 = .error e := refused.elim id fun r => answer.symm.trans r
    exact ⟨Module.carryOut_refused refused, ModuleStore.carryOut_refused (answer.trans refused)⟩

end ReleaseWeaver
