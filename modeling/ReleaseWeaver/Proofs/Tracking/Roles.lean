import ReleaseWeaver.Proofs.Weave.Rewriting

/-
  Roles of instructions in a woven body. An instruction is plain, or it is a handle call, or it
  has a fixed place in a prologue, a registration or a release. A cast gives every instruction a
  role that it plays, so that the roles follow one another as in the runs that were put in, and
  no branch leads into the middle of one. A run goes into a cast body where the roles around it
  lead into it and on from it.
-/

namespace ReleaseWeaver

/-- The field that an instruction reads or writes. -/
def Instr.accessed? : Instr → Option FieldRef
  | .ldfld field | .stfld field => some field
  | _ => none

theorem Instr.accessed?_withTarget (i : Instr) (t : Handle) :
    (i.withTarget t).accessed? = i.accessed? := by
  cases i <;> rfl

/-- The classes and methods of the default collaborators. -/
def containerName : String := "System.Reactive.Disposables.CompositeDisposable"

def releaseName : String := "Dispose"

def helperType : String := "Sweep.Core.TrackingExtensions"

def helperName : String := "TrackWith"

inductive Role where
  | plain
  | matched
  | prologueThis
  | prologueNew
  | prologueStore
  | registerThis
  | registerLoad
  | registerCall
  | releaseThis
  | releaseLoad
  | releaseCall
  /-- The container of argument 0 has been released. -/
  | released
deriving DecidableEq, Inhabited

namespace Role

/-- Control may come from anywhere. -/
def isOpen : Role → Bool
  | plain | matched | prologueThis | releaseThis => true
  | _ => false

/-- Nothing is on its way into a field or a container, or out of one. -/
def isCalm (r : Role) : Bool := r.isOpen || r = prologueNew

/-- Whether an instruction of the second role may come right after one of the first. -/
def leads : Role → Role → Bool
  | plain, next | prologueStore, next | registerCall, next => next.isOpen
  | matched, next => next = registerThis
  | prologueThis, next => next = prologueNew
  | prologueNew, next => next = prologueStore
  | registerThis, next => next = registerLoad
  | registerLoad, next => next = registerCall
  | releaseThis, next => next = releaseLoad
  | releaseLoad, next => next = releaseCall
  | releaseCall, next => next = released
  | released, next => next = released || next.isOpen

/-- The instruction does what the role asks of it. -/
def Plays (field : String) (i : Instr) : Role → Prop
  | plain | released => ∀ f, i.accessed? = some f → f.name ≠ field
  | matched => ∃ method isVirtual, i = .invoke method isVirtual ∧ method.returns.isSome = true
  | prologueThis | registerThis | releaseThis => i = .ldthis
  | prologueNew => ∃ constructor, i = .newobj constructor ∧ constructor.params = [] ∧
      constructor.declaring.definitionName = containerName
  | prologueStore => ∃ f, i = .stfld f ∧ f.name = field
  | registerLoad | releaseLoad => ∃ f, i = .ldfld f ∧ f.name = field
  | registerCall => ∃ helper, i = .call helper ∧ helper.arity = 2 ∧
      helper.declaring.definitionName = helperType ∧ helper.name = helperName
  | releaseCall => ∃ release, i = .callvirt release ∧ release.params = [] ∧
      release.declaring.definitionName = containerName ∧ release.name = releaseName

theorem leads_of_leads_plain {a b : Role} (closed : a.leads plain = true)
    (opened : b.isOpen = true) : a.leads b = true := by
  revert closed opened
  cases a <;> cases b <;> decide

/-- Branches that are redirected play the same roles. -/
theorem plays_withTarget {field : String} {i : Instr} {r : Role} (t : Handle)
    (plays : r.Plays field i) : r.Plays field (i.withTarget t) := by
  cases i with
  | branch on _ =>
    cases r with
    | plain | released =>
      intro f accessed
      cases accessed
    | matched =>
      obtain ⟨_, _, impossible, _⟩ := plays
      cases impossible
    | prologueThis | registerThis | releaseThis => cases plays
    | prologueNew | registerCall | releaseCall =>
      obtain ⟨_, impossible, _⟩ := plays
      cases impossible
    | prologueStore | registerLoad | releaseLoad =>
      obtain ⟨_, impossible, _⟩ := plays
      cases impossible
  | _ => exact plays

end Role

namespace Body

variable {b : Body} {field : String} {sites : Handle → Prop} {role : Handle → Role}
  {parts : List Role} {run : List Instr} {p : Nat}

/-- Every branch leads to an instruction of the body. -/
def Bound (b : Body) : Prop := ∀ l ∈ b.lines, ∀ t, l.2.target? = some t → t ∈ b.handles

instance (b : Body) : Decidable b.Bound :=
  inferInstanceAs (Decidable (∀ l ∈ b.lines, ∀ t ∈ l.2.target?, t ∈ b.handles))

/-- The roles are played, and they follow one another from the first instruction to the end. -/
structure Cast (b : Body) (field : String) (sites : Handle → Prop) (role : Handle → Role) :
    Prop where
  plays : ∀ l ∈ b.lines, (role l.1).Plays field l.2
  follows : (.plain :: (b.lines.map (fun l => role l.1) ++ [.plain])).IsChain
    fun a b => a.leads b = true
  sites : ∀ l ∈ b.lines, role l.1 = .matched ↔ sites l.1

/-- A cast in which no branch leads into the middle of a run. -/
structure Staged (b : Body) (field : String) (sites : Handle → Prop) (role : Handle → Role) : Prop
    extends b.Cast field sites role where
  jumps : ∀ l ∈ b.lines, ∀ t, l.2.target? = some t → (role t).isOpen = true

/-! ## Putting a run in -/

/-- The roles of a body with a run spliced in. -/
def spliceRole (b : Body) (role : Handle → Role) (parts : List Role) (h : Handle) : Role :=
  if h ∈ b.handles then role h else (parts[h.number - (b.length + 1)]?).getD .plain

theorem spliceRole_old {h : Handle} (listed : h ∈ b.handles) :
    b.spliceRole role parts h = role h := if_pos listed

theorem spliceRole_new (j : Nat) :
    b.spliceRole role parts (.nth (b.length + 1 + j)) = (parts[j]?).getD .plain := by
  rw [spliceRole, if_neg (nth_not_mem_handles j)]
  congr 2
  show b.length + 1 + j - (b.length + 1) = j
  omega

theorem map_spliceRole_fresh (same : parts.length = run.length) :
    (b.fresh run).map (fun l => b.spliceRole role parts l.1) = parts := by
  refine List.ext_getElem? fun j => ?_
  rw [List.getElem?_map, getElem?_fresh, Option.map_map]
  by_cases inside : j < run.length
  · rw [List.getElem?_eq_getElem inside, Option.map_some]
    show some (b.spliceRole role parts (.nth (b.length + 1 + j))) = _
    rw [spliceRole_new, List.getElem?_eq_getElem (same ▸ inside)]
    rfl
  · rw [List.getElem?_eq_none (by omega), List.getElem?_eq_none (by omega)]
    rfl

theorem map_spliceRole {ls : List (Handle × Instr)} (listed : ∀ l ∈ ls, l ∈ b.lines) :
    ls.map (fun l => b.spliceRole role parts l.1) = ls.map fun l => role l.1 :=
  List.map_congr_left fun l here => spliceRole_old (fst_mem_handles (listed l here))

theorem roles_insertAt (same : parts.length = run.length) :
    (b.insertAt p run).lines.map (fun l => b.spliceRole role parts l.1) =
      (b.lines.take p).map (fun l => role l.1) ++
        (parts ++ (b.lines.drop p).map fun l => role l.1) := by
  rw [lines_insertAt, List.map_append, List.map_append, map_spliceRole_fresh same,
    map_spliceRole fun l => List.mem_of_mem_take, map_spliceRole fun l => List.mem_of_mem_drop]

/-- The instructions of a run play its parts; none is a branch or counts as a handle call. -/
def Acts (field : String) (parts : List Role) (run : List Instr) : Prop :=
  List.Forall₂ (fun r i => r.Plays field i ∧ r ≠ .matched ∧ i.target? = none) parts run

theorem Acts.at_fresh (acts : Acts field parts run) (role : Handle → Role) {l : Handle × Instr}
    (new : l ∈ b.fresh run) :
    ∃ r, b.spliceRole role parts l.1 = r ∧ r.Plays field l.2 ∧ r ≠ .matched ∧
      l.2.target? = none := by
  obtain ⟨j, i, here, rfl⟩ := mem_fresh.1 new
  obtain ⟨inside, eq⟩ := List.getElem?_eq_some_iff.1 here
  have inside' : j < parts.length := by
    rw [acts.length_eq]
    exact inside
  have part := List.Forall₂.get acts inside' inside
  rw [List.get_eq_getElem, List.get_eq_getElem, eq] at part
  refine ⟨parts[j], ?_, part⟩
  rw [spliceRole_new, List.getElem?_eq_getElem inside']
  rfl

/-- A run with its parts goes in where the roles around it lead into it and on from it. -/
theorem Cast.insertAt (acts : Acts field parts run)
    (plays : ∀ l ∈ b.lines, (role l.1).Plays field l.2)
    (marks : ∀ l ∈ b.lines, role l.1 = .matched ↔ sites l.1)
    (foreign : ∀ j, ¬sites (.nth (b.length + 1 + j)))
    (follows : (.plain :: ((b.lines.take p).map (fun l => role l.1) ++
      (parts ++ ((b.lines.drop p).map (fun l => role l.1) ++ [.plain])))).IsChain
        fun a b => a.leads b = true) :
    (b.insertAt p run).Cast field sites (b.spliceRole role parts) where
  plays := by
    intro l listed
    obtain old | new := mem_lines_insertAt.1 listed
    · rw [spliceRole_old (fst_mem_handles old)]
      exact plays l old
    · obtain ⟨r, same, part, _⟩ := acts.at_fresh role new
      rw [same]
      exact part
  follows := by
    rw [roles_insertAt acts.length_eq, List.append_assoc, List.append_assoc]
    exact follows
  sites := by
    intro l listed
    obtain old | new := mem_lines_insertAt.1 listed
    · rw [spliceRole_old (fst_mem_handles old)]
      exact marks l old
    · obtain ⟨r, same, _, other, _⟩ := acts.at_fresh role new
      rw [same]
      obtain ⟨j, i, _, rfl⟩ := mem_fresh.1 new
      exact ⟨fun marked => absurd marked other, fun site => absurd site (foreign j)⟩

theorem Bound.insertAt (bound : b.Bound) (acts : Acts field parts run) :
    (b.insertAt p run).Bound := by
  intro l listed t target
  obtain old | new := mem_lines_insertAt.1 listed
  · exact mem_handles_insertAt.2 (.inl (bound l old t target))
  · obtain ⟨_, _, _, _, none⟩ := acts.at_fresh (fun _ => .plain) new
    rw [none] at target
    cases target

theorem jumps_insertAt (good : Handle → Prop) (bound : b.Bound) (acts : Acts field parts run)
    (jumps : ∀ l ∈ b.lines, ∀ t, l.2.target? = some t → good t → (role t).isOpen = true) :
    ∀ l ∈ (b.insertAt p run).lines, ∀ t, l.2.target? = some t → good t →
      (b.spliceRole role parts t).isOpen = true := by
  intro l listed t target fine
  obtain old | new := mem_lines_insertAt.1 listed
  · rw [spliceRole_old (bound l old t target)]
    exact jumps l old t target fine
  · obtain ⟨_, _, _, _, none⟩ := acts.at_fresh role new
    rw [none] at target
    cases target

end Body

end ReleaseWeaver
