import ReleaseWeaver.Proofs.Code.Edits

/-
  Insertion in the way of the branches to an anchor. These are led to the run once it is in, and of
  the run only the first instruction is passed over then. So a branch to the anchor that comes later
  in the run, to skip what is left of it, is led back to its beginning. Main statement: the targets
  after the insertion, and that they are the intended ones exactly for the runs without such a
  branch.
-/

namespace ReleaseWeaver

namespace Instr

/-- A branch to one instruction leads to another instead; every other instruction stays. -/
def redirect (source goal : Handle) : Instr → Instr
  | .branch on target => .branch on (if target = source then goal else target)
  | i => i

variable {source goal : Handle} {i : Instr}

theorem redirect_of_target?_none (none : i.target? = none) : i.redirect source goal = i := by
  cases i with
  | branch on target => cases none
  | _ => rfl

theorem redirect_redirect (apart : goal ≠ source) (goal' : Handle) :
    (i.redirect source goal).redirect source goal' = i.redirect source goal := by
  cases i with
  | branch on target =>
    by_cases same : target = source
    · simp only [redirect, same, if_true, if_neg apart]
    · simp only [redirect, if_neg same]
  | _ => rfl

theorem target?_redirect (i : Instr) (source goal : Handle) : (i.redirect source goal).target? =
    i.target?.map fun t => if t = source then goal else t := by
  cases i <;> rfl

theorem redirect_eq (source goal : Handle) (i : Instr) : i.redirect source goal =
    if i.target? = some source then i.withTarget goal else i := by
  cases i with
  | branch on target =>
    by_cases same : target = source
    · simp [redirect, target?, withTarget, same]
    · simp [redirect, target?, same]
  | _ => rfl

theorem fallsThrough_redirect (i : Instr) (source goal : Handle) :
    (i.redirect source goal).fallsThrough = i.fallsThrough := by
  rw [redirect_eq]
  split
  · exact fallsThrough_withTarget i goal
  · rfl

theorem redirect_self (i : Instr) (h : Handle) : i.redirect h h = i := by
  rw [redirect_eq]
  split
  · next leads =>
    cases i with
    | branch on target =>
      cases leads
      rfl
    | _ => rfl
  · rfl

theorem target?_redirect_ne (other : goal ≠ source) :
    (i.redirect source goal).target? ≠ some source := by
  rw [target?_redirect]
  intro leads
  obtain ⟨t, _, same⟩ := Option.map_eq_some_iff.1 leads
  split at same
  · exact other same
  · next elsewhere => exact elsewhere same

theorem redirect_eq_self (other : goal ≠ source) :
    i.redirect source goal = i ↔ i.target? ≠ some source := by
  refine ⟨fun same => ?_, fun elsewhere => by rw [redirect_eq, if_neg elsewhere]⟩
  rw [← same]
  exact target?_redirect_ne other

end Instr

namespace Body

variable {b b' : Body} {anchor : Handle}

theorem get?_retarget (b : Body) (source goal h : Handle) : (b.retarget source goal).get? h =
    (b.get? h).map fun i => if h = goal then i else i.redirect source goal := by
  rw [retarget, get?_mapInstrs]
  congr 1
  funext i
  by_cases same : h = goal
  · simp [isRetargeted, same]
  · simp [isRetargeted, same, Instr.redirect_eq]

/-- The handle that the next instruction will get. -/
abbrev nextHandle (b : Body) : Handle := .nth (b.length + 1)

/-- The branches to the anchor that were there before lead to the run, and all other instructions,
those of the run among them, are what they were. -/
structure RedirectsOld (b : Body) (anchor : Handle) (run : List Instr) (b' : Body) : Prop where
  old : ∀ h i, b.get? h = some i → b'.get? h = some (i.redirect anchor b.nextHandle)
  new : ∀ j i, run[j]? = some i → b'.get? (.nth (b.length + 1 + j)) = some i

/-- The branches to the anchor lead to the run, also those in the run but for its first
instruction. -/
structure RedirectsAll (b : Body) (anchor : Handle) (first : Instr) (rest : List Instr)
    (b' : Body) : Prop where
  old : ∀ h i, b.get? h = some i → b'.get? h = some (i.redirect anchor b.nextHandle)
  head : b'.get? b.nextHandle = some first
  tail : ∀ j i, rest[j]? = some i →
    b'.get? (.nth (b.length + 1 + (j + 1))) = some (i.redirect anchor b.nextHandle)

theorem nextHandle_not_mem (b : Body) : b.nextHandle ∉ b.handles := nth_not_mem_handles 0

theorem redirectsAll_retarget (b : Body) (anchor : Handle) (p : Nat) (first : Instr)
    (rest : List Instr) : b.RedirectsAll anchor first rest
      ((b.insertAt p (first :: rest)).retarget anchor b.nextHandle) where
  old h i known := by
    have listed := exists_get?.1 ⟨i, known⟩
    have other : h ≠ b.nextHandle := fun same => b.nextHandle_not_mem (same ▸ listed)
    rw [get?_retarget, get?_insertAt_old listed, known, Option.map_some, if_neg other]
  head := by
    have here : (first :: rest)[0]? = some first := rfl
    rw [get?_retarget, show b.nextHandle = .nth (b.length + 1 + 0) from rfl,
      get?_insertAt_new here, Option.map_some, if_pos rfl]
  tail j i here := by
    have here' : (first :: rest)[j + 1]? = some i := here
    have other : .nth (b.length + 1 + (j + 1)) ≠ b.nextHandle := by
      intro same
      have := Handle.nth.inj same
      omega
    rw [get?_retarget, get?_insertAt_new here', Option.map_some, if_neg other]

/-- They are the intended branches if no later instruction of the run leads to the anchor. -/
theorem RedirectsAll.redirectsOld_iff {first : Instr} {rest : List Instr}
    (redirects : b.RedirectsAll anchor first rest b') (other : b.nextHandle ≠ anchor) :
    b.RedirectsOld anchor (first :: rest) b' ↔ ∀ i ∈ rest, i.target? ≠ some anchor := by
  constructor
  · intro intended i inside
    obtain ⟨j, here⟩ := List.mem_iff_getElem?.1 inside
    have kept := intended.new (j + 1) i here
    rw [redirects.tail j i here] at kept
    exact (Instr.redirect_eq_self other).1 (Option.some.inj kept)
  · refine fun elsewhere => ⟨redirects.old, fun j i here => ?_⟩
    cases j with
    | zero =>
      cases here
      exact redirects.head
    | succ j =>
      have kept := (Instr.redirect_eq_self other).2 (elsewhere i (List.mem_of_getElem? here))
      rw [redirects.tail j i here, kept]

/-- After the insertion only the first instruction of the run may still lead to the anchor. The
branches that were there before lead to the run, and so do the later ones of the run, which keep
their targets exactly if the anchor is not among these. -/
theorem insertBeforeRetargeting_redirects (listed : anchor ∈ b.handles) (first : Instr)
    (rest : List Instr) : ∃ b', b.insertBeforeRetargeting anchor (first :: rest) = .ok b' ∧
      b.RedirectsAll anchor first rest b' ∧
      (∀ h i, b'.get? h = some i → i.target? = some anchor → h = b.nextHandle) ∧
      (b.RedirectsOld anchor (first :: rest) b' ↔ ∀ i ∈ rest, i.target? ≠ some anchor) := by
  obtain ⟨p, found⟩ := position?_isSome.2 listed
  have redirects := b.redirectsAll_retarget anchor p first rest
  have other : b.nextHandle ≠ anchor := fun same => b.nextHandle_not_mem (same ▸ listed)
  refine ⟨_, insertBeforeRetargeting_eq found first rest, redirects, fun h i known leads => ?_,
    redirects.redirectsOld_iff other⟩
  rw [get?_retarget] at known
  obtain ⟨i', _, rfl⟩ := Option.map_eq_some_iff.1 known
  by_contra elsewhere
  rw [if_neg elsewhere] at leads
  exact Instr.target?_redirect_ne other leads

/-- A run that skips its last instruction, before the exit to which a branch leads: that branch
leads to the run. -/
theorem insertBeforeRetargeting_redirects_earlyExit :
    .nth 4 ∈ (ofInstrs [.ldthis, .branch .whenTrue (.nth 4), .nop, .ret]).handles ∧
      ∃ b', (ofInstrs [.ldthis, .branch .whenTrue (.nth 4), .nop, .ret]).insertBeforeRetargeting
        (.nth 4) [.branch .whenFalse (.nth 4), .nop] = .ok b' ∧
      b'.get? (.nth 2) = some (.branch .whenTrue (.nth 5)) ∧
      b'.get? (.nth 5) = some (.branch .whenFalse (.nth 4)) := by
  have listed : .nth 4 ∈ (ofInstrs [.ldthis, .branch .whenTrue (.nth 4), .nop, .ret]).handles := by
    decide
  obtain ⟨b', inserted, redirects, _, _⟩ := insertBeforeRetargeting_redirects listed
    (.branch .whenFalse (.nth 4)) [.nop]
  exact ⟨listed, b', inserted, redirects.old (.nth 2) _ rfl, redirects.head⟩

/-- A run that skips its last instruction from its second one on goes round in circles. -/
theorem insertBeforeRetargeting_circles : ¬∀ (b : Body) (anchor : Handle) (run : List Instr),
    (∀ i ∈ b.instrs ++ run, ∀ t, i.target? = some t → t ∈ b.handles) → anchor ∈ b.handles →
      run ≠ [] → ∃ b', b.insertBeforeRetargeting anchor run = .ok b' ∧
        b.RedirectsOld anchor run b' := by
  intro claimed
  obtain ⟨b', inserted, redirects⟩ := claimed (ofInstrs [.ret]) (.nth 1)
    [.ldnull, .branch .whenFalse (.nth 1), .nop] (by decide) (by decide) (by decide)
  have kept := redirects.new 1 _ rfl
  cases inserted
  cases kept

end Body

end ReleaseWeaver
