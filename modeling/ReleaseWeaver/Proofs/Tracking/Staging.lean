import ReleaseWeaver.Proofs.Tracking.Roles

/-
  What the handle pass puts into a body keeps the body staged: the prologue before the first
  instruction, a registration after every handle call, the release before the final exit, and
  whatever else is released between that and the exit.
-/

namespace ReleaseWeaver

/-- Woven code constructs, fills and releases containers of the default class by the default
helper. -/
structure Collaborators.Standard (c : Collaborators) : Prop where
  constructorParams : c.containerConstructor.params = []
  constructorType : c.containerConstructor.declaring.definitionName = containerName
  releaseParams : c.containerRelease.params = []
  releaseType : c.containerRelease.declaring.definitionName = containerName
  releaseName : c.containerRelease.name = ReleaseWeaver.releaseName
  helperArity : c.helper.arity = 2
  helperType : c.helper.declaring.definitionName = ReleaseWeaver.helperType
  helperName : c.helper.name = ReleaseWeaver.helperName

namespace Body

variable {b : Body} {field : String} {sites : Handle → Prop} {role : Handle → Role}
  {parts : List Role} {run : List Instr} {p : Nat} {f : FieldRef} {c : Collaborators}

/-! ## The chain of the roles -/

theorem swap_head (a c : Role) {rest : List Role} (wider : ∀ r, a.leads r = true → c.leads r = true)
    (chain : (a :: rest).IsChain fun a b => a.leads b = true) :
    (c :: rest).IsChain fun a b => a.leads b = true := by
  cases rest with
  | nil => exact .singleton c
  | cons r rest =>
    rw [List.isChain_cons_cons] at chain ⊢
    exact ⟨wider r chain.1, chain.2⟩

theorem swap_last {c c' : Role} {before : List Role}
    (wider : ∀ a : Role, a.leads c = true → a.leads c' = true)
    (chain : (before ++ [c]).IsChain fun a b => a.leads b = true) :
    (before ++ [c']).IsChain fun a b => a.leads b = true := by
  rw [List.isChain_append] at chain ⊢
  refine ⟨chain.1, .singleton c', fun a last c'' first => ?_⟩
  cases first
  exact wider a (chain.2.2 a last c rfl)

/-- What stands around a line. -/
theorem around {h : Handle} (found : b.position? h = some p) :
    ∃ i, b.lines = b.lines.take p ++ (h, i) :: b.lines.drop (p + 1) ∧
      b.lines.drop p = (h, i) :: b.lines.drop (p + 1) ∧
      b.lines.take (p + 1) = b.lines.take p ++ [(h, i)] ∧
      (∀ l ∈ b.lines.take p, l.1 ≠ h) ∧ ∀ l ∈ b.lines.drop (p + 1), l.1 ≠ h := by
  obtain ⟨i, whole, drop, take⟩ := split_at found
  have once := b.nodup_handles
  rw [handles, whole, List.map_append, List.map_cons, List.nodup_append, List.nodup_cons] at once
  obtain ⟨_, ⟨after, _⟩, before⟩ := once
  refine ⟨i, whole, drop, take, fun l listed same => ?_, fun l listed same => ?_⟩
  · exact before l.1 (List.mem_map_of_mem listed) h List.mem_cons_self same
  · have named : l.1 ∈ (b.lines.drop (p + 1)).map Prod.fst := List.mem_map_of_mem listed
    exact after (same ▸ named)

theorem map_update {ls : List (Handle × Instr)} {h : Handle} {r : Role}
    (other : ∀ l ∈ ls, l.1 ≠ h) :
    ls.map (fun l => Function.update role h r l.1) = ls.map fun l => role l.1 :=
  List.map_congr_left fun l listed => Function.update_of_ne (other l listed) r role

/-! ## The three runs -/

/-- A body that leaves the field alone is cast with plain roles. -/
theorem staged_plain (apart : ∀ l ∈ b.lines, ∀ f, l.2.accessed? = some f → f.name ≠ field) :
    b.Staged field (fun _ => False) fun _ => .plain where
  plays := apart
  follows := by
    have chain (ls : List (Handle × Instr)) :
        (Role.plain :: (ls.map (fun _ => Role.plain) ++ [.plain])).IsChain
          fun a b => a.leads b = true := by
      induction ls with
      | nil => decide
      | cons l rest ih => exact ih.cons_cons rfl
    exact chain b.lines
  sites := fun _ _ => ⟨fun marked => (by cases marked), False.elim⟩
  jumps := fun _ _ _ _ => rfl

/-- The prologue goes before the first instruction. -/
theorem Staged.prologue (staged : b.Staged field sites role) (bound : b.Bound)
    (foreign : ∀ j, ¬sites (.nth (b.length + 1 + j))) (named : f.name = field)
    (standard : c.Standard) :
    (b.insertAt 0 (ReleaseWeaver.prologue f c.containerConstructor)).Bound ∧
      (b.insertAt 0 (ReleaseWeaver.prologue f c.containerConstructor)).Staged field sites
        (b.spliceRole role [.prologueThis, .prologueNew, .prologueStore]) := by
  have acts : Acts field [.prologueThis, .prologueNew, .prologueStore]
      (ReleaseWeaver.prologue f c.containerConstructor) :=
    .cons ⟨rfl, by decide, rfl⟩
      (.cons ⟨⟨_, rfl, standard.constructorParams, standard.constructorType⟩, by decide, rfl⟩
        (.cons ⟨⟨_, rfl, named⟩, by decide, rfl⟩ .nil))
  refine ⟨bound.insertAt acts, .insertAt acts staged.plays staged.sites foreign ?_, ?_⟩
  · have rest := swap_head .plain .prologueStore (fun _ opened => opened) staged.follows
    exact .cons_cons rfl (.cons_cons rfl (.cons_cons rfl rest))
  · intro l listed t target
    exact jumps_insertAt (fun _ => True) bound acts
      (fun l listed t target _ => staged.jumps l listed t target) l listed t target trivial

/-- A registration goes after a call that returns a value, and makes it a handle call. -/
theorem Staged.registration (staged : b.Staged field sites role) (bound : b.Bound)
    (foreign : ∀ j, ¬sites (.nth (b.length + 1 + j))) (named : f.name = field)
    (standard : c.Standard) {h : Handle} {method : MethodRef} {isVirtual : Bool}
    (line : b.lines[p]? = some (h, .invoke method isVirtual))
    (returns : method.returns.isSome = true) (unmarked : role h = .plain) :
    (b.insertAt (p + 1) (ReleaseWeaver.registration f c.helper)).Bound ∧
      (b.insertAt (p + 1) (ReleaseWeaver.registration f c.helper)).Staged field
        (fun k => sites k ∨ k = h) (b.spliceRole (Function.update role h .matched)
          [.registerThis, .registerLoad, .registerCall]) := by
  have acts : Acts field [.registerThis, .registerLoad, .registerCall]
      (ReleaseWeaver.registration f c.helper) :=
    .cons ⟨rfl, by decide, rfl⟩ (.cons ⟨⟨_, rfl, named⟩, by decide, rfl⟩
      (.cons ⟨⟨_, rfl, standard.helperArity, standard.helperType, standard.helperName⟩,
        by decide, rfl⟩ .nil))
  have found : b.position? h = some p := position?_eq_some.2 ⟨_, line⟩
  obtain ⟨i, whole, drop, take, before, after⟩ := around found
  have listed : (h, Instr.invoke method isVirtual) ∈ b.lines := List.mem_of_getElem? line
  have other {l : Handle × Instr} (here : l ∈ b.lines) (ne : l.1 ≠ h) :
      Function.update role h .matched l.1 = role l.1 := Function.update_of_ne ne _ role
  refine ⟨bound.insertAt acts, .insertAt acts ?_ ?_ ?_ ?_, ?_⟩
  · intro l here
    by_cases same : l.1 = h
    · have line := line_unique here listed same
      rw [line, Function.update_self]
      exact ⟨method, isVirtual, rfl, returns⟩
    · rw [other here same]
      exact staged.plays l here
  · intro l here
    by_cases same : l.1 = h
    · rw [same, Function.update_self]
      exact ⟨fun _ => .inr rfl, fun _ => rfl⟩
    · rw [other here same, staged.sites l here]
      exact ⟨.inl, fun site => site.resolve_right same⟩
  · intro j site
    obtain old | new := site
    · exact foreign j old
    · exact nth_not_mem_handles j (new ▸ fst_mem_handles listed)
  · have old := staged.follows
    rw [whole, List.map_append, List.map_cons, List.append_assoc, List.cons_append,
      ← List.cons_append, List.isChain_split, unmarked] at old
    rw [take, List.map_append, List.map_cons, List.map_nil, map_update before, map_update after,
      Function.update_self, List.append_assoc, List.cons_append, List.nil_append,
      ← List.cons_append, List.isChain_split]
    refine ⟨swap_last (fun a leads => Role.leads_of_leads_plain leads rfl) old.1, ?_⟩
    have rest := swap_head .plain .registerCall (fun _ opened => opened) old.2
    exact .cons_cons rfl (.cons_cons rfl (.cons_cons rfl rest))
  · intro l here t target
    refine jumps_insertAt (fun _ => True) bound acts (fun l here t target _ => ?_)
      l here t target trivial
    by_cases same : t = h
    · rw [same, Function.update_self]
      rfl
    · rw [Function.update_of_ne same]
      exact staged.jumps l here t target

/-- No part of the body comes after a release. -/
theorem spliceRole_ne {r : Role} (clear : ∀ h, role h ≠ r) (other : r ∉ parts)
    (ne : r ≠ .plain) (h : Handle) : b.spliceRole role parts h ≠ r := by
  unfold spliceRole
  split
  · exact clear h
  · cases part : parts[h.number - (b.length + 1)]? with
    | none => exact ne.symm
    | some r' => exact fun same => other (same ▸ List.mem_of_getElem? part)

/-- Registrations go after all handle calls. -/
theorem Staged.insertAfterEach (staged : b.Staged field sites role) (bound : b.Bound)
    (foreign : ∀ j, ¬sites (.nth (b.length + 1 + j))) (clear : ∀ h, role h ≠ .released)
    (named : f.name = field) (standard : c.Standard) {calls : List Handle} (once : calls.Nodup)
    (each : ∀ h ∈ calls, role h = .plain ∧ ∃ method isVirtual,
      (h, Instr.invoke method isVirtual) ∈ b.lines ∧ method.returns.isSome = true) :
    (Body.insertAfterEach (ReleaseWeaver.registration f c.helper) calls b).1.Bound ∧
      ∃ role', (∀ h, role' h ≠ .released) ∧
        (Body.insertAfterEach (ReleaseWeaver.registration f c.helper) calls b).1.Staged field
          (fun k => sites k ∨ k ∈ calls) role' := by
  induction calls generalizing b sites role with
  | nil =>
    refine ⟨bound, role, clear, ?_⟩
    simpa [Body.insertAfterEach] using staged
  | cons h rest ih =>
    obtain ⟨unmarked, method, isVirtual, listed, returns⟩ := each h List.mem_cons_self
    obtain ⟨fresh, once'⟩ := List.nodup_cons.1 once
    obtain ⟨p, found⟩ := position?_isSome.2 (fst_mem_handles listed)
    obtain ⟨i, line⟩ := position?_eq_some.1 found
    have same := line_unique listed (List.mem_of_getElem? line) rfl
    cases same
    obtain ⟨bound', staged'⟩ :=
      staged.registration bound foreign named standard line returns unmarked
    have foreign' (j : Nat) : ¬(fun k => sites k ∨ k = h) (.nth
        ((b.insertAt (p + 1) (ReleaseWeaver.registration f c.helper)).length + 1 + j)) := by
      rw [length_insertAt, show b.length + (ReleaseWeaver.registration f c.helper).length + 1 + j =
        b.length + 1 + (3 + j) by simp [ReleaseWeaver.registration]; omega]
      rintro (old | new)
      · exact foreign (3 + j) old
      · exact nth_not_mem_handles (3 + j) (new ▸ fst_mem_handles listed)
    have clear' : ∀ k, b.spliceRole (Function.update role h .matched)
        [.registerThis, .registerLoad, .registerCall] k ≠ .released := by
      refine spliceRole_ne (fun k => ?_) (by decide) (by decide)
      by_cases here : k = h
      · rw [here, Function.update_self]
        decide
      · rw [Function.update_of_ne here]
        exact clear k
    obtain ⟨bound'', role', clear'', staged''⟩ := ih staged' bound' foreign' clear' once'
      fun k later => by
        obtain ⟨unmarked', method', isVirtual', listed', returns'⟩ :=
          each k (List.mem_cons_of_mem h later)
        refine ⟨?_, method', isVirtual', mem_lines_insertAt.2 (.inl listed'), returns'⟩
        have other : k ≠ h := fun same => fresh (same ▸ later)
        rw [spliceRole_old (fst_mem_handles listed'), Function.update_of_ne other]
        exact unmarked'
    have inserted : Body.insertAfterEach (ReleaseWeaver.registration f c.helper) (h :: rest) b =
        Body.insertAfterEach (ReleaseWeaver.registration f c.helper) rest
          (b.insertAt (p + 1) (ReleaseWeaver.registration f c.helper)) := by
      simp only [Body.insertAfterEach, insertAfter, found]
    rw [inserted]
    refine ⟨bound'', role', clear'', ?_⟩
    have all : (fun k => sites k ∨ k ∈ h :: rest) = fun k => (sites k ∨ k = h) ∨ k ∈ rest := by
      funext k
      rw [List.mem_cons, or_assoc]
    rw [all]
    exact staged''

/-! ## Before the final exit -/

theorem Cast.retarget (cast : b.Cast field sites role) (source goal : Handle) :
    (b.retarget source goal).Cast field sites role where
  plays := by
    intro l listed
    obtain ⟨l', listed', rfl⟩ := mem_lines_retarget.1 listed
    have plays := cast.plays l' listed'
    show (role l'.1).Plays field (retargetLine source goal l').2
    unfold retargetLine
    split
    · exact Role.plays_withTarget goal plays
    · exact plays
  follows := by
    rw [lines_retarget, List.map_map]
    exact cast.follows
  sites := by
    intro l listed
    obtain ⟨l', listed', rfl⟩ := mem_lines_retarget.1 listed
    exact cast.sites l' listed'

/-- What plays a `ret` is plain or comes after a release. -/
theorem Cast.role_exit (cast : b.Cast field sites role) {exit : Handle}
    (final : b.finalExit? = some exit) : role exit = .plain ∨ role exit = .released := by
  have listed := List.mem_of_getLast? (finalExit?_eq_some.1 final)
  have plays := cast.plays (exit, .ret) listed
  dsimp only at plays
  cases here : role exit with
  | plain => exact .inl rfl
  | released => exact .inr rfl
  | prologueThis | registerThis | releaseThis =>
    rw [here] at plays
    cases plays
  | matched =>
    rw [here] at plays
    obtain ⟨_, _, impossible, _⟩ := plays
    cases impossible
  | prologueNew | registerCall | releaseCall =>
    rw [here] at plays
    obtain ⟨_, impossible, _⟩ := plays
    cases impossible
  | prologueStore | registerLoad | releaseLoad =>
    rw [here] at plays
    obtain ⟨_, impossible, _⟩ := plays
    cases impossible

section BeforeExit

variable {exit : Handle} {i : Instr} {r : Role} (staged : b.Staged field sites role)
  (acts : Acts field (r :: parts) (i :: run))
  (enters : ∀ a : Role, a.leads (role exit) = true → a.leads r = true)

include staged acts enters

/-- The roles with a run before the final exit, while the branches to the exit pass the run by. -/
theorem Staged.cast_beforeExit (foreign : ∀ j, ¬sites (.nth (b.length + 1 + j)))
    (final : b.finalExit? = some exit) (found : b.position? exit = some p)
    (last : p + 1 = b.lines.length)
    (leaves : (r :: (parts ++ [.released, .plain])).IsChain fun a b => a.leads b = true) :
    (b.insertAt p (i :: run)).Cast field sites
      (b.spliceRole (Function.update role exit .released) (r :: parts)) := by
  obtain ⟨i', whole, drop, _, before, _⟩ := around found
  have listed : (exit, Instr.ret) ∈ b.lines := List.mem_of_getLast? (finalExit?_eq_some.1 final)
  have line : (exit, i') ∈ b.lines := by
    rw [whole]
    exact List.mem_append_right _ List.mem_cons_self
  have same := line_unique line listed rfl
  cases same
  have nothing : b.lines.drop (p + 1) = [] := List.drop_eq_nil_of_le (by omega)
  refine .insertAt acts (fun l here => ?_) (fun l here => ?_) foreign ?_
  · by_cases same : l.1 = exit
    · rw [line_unique here listed same, Function.update_self]
      intro f accessed
      cases accessed
    · rw [Function.update_of_ne same]
      exact staged.plays l here
  · by_cases same : l.1 = exit
    · rw [← staged.sites l here, same, Function.update_self]
      obtain exit' | exit' := staged.role_exit final <;> simp [exit']
    · rw [Function.update_of_ne same]
      exact staged.sites l here
  · have old := staged.follows
    rw [whole, nothing, List.map_append, List.map_cons, List.map_nil, List.append_assoc,
      List.cons_append, ← List.cons_append, List.isChain_split] at old
    rw [drop, nothing, map_update before, List.map_cons, List.map_nil, Function.update_self,
      List.cons_append, ← List.cons_append, List.isChain_split]
    exact ⟨swap_last enters old.1, leaves⟩

/-- The branches that led to the exit lead to the run, and all of them to open places. -/
theorem Staged.jumps_beforeExit (bound : b.Bound) {l : Handle × Instr}
    (here : l ∈ ((b.insertAt p (i :: run)).retarget exit (.nth (b.length + 1))).lines) {t : Handle}
    (target : l.2.target? = some t) :
    (b.spliceRole (Function.update role exit .released) (r :: parts) t).isOpen = true := by
  obtain ⟨l', here', rfl⟩ := mem_lines_retarget.1 here
  have others : ∀ l ∈ (b.insertAt p (i :: run)).lines, ∀ t, l.2.target? = some t → t ≠ exit →
      (b.spliceRole (Function.update role exit .released) (r :: parts) t).isOpen = true := by
    refine jumps_insertAt (fun t => t ≠ exit) bound acts fun l here t target other => ?_
    rw [Function.update_of_ne other]
    exact staged.jumps l here t target
  unfold retargetLine at target
  split at target
  · next redirected =>
    rw [Instr.target?_withTarget] at target
    obtain ⟨old, old', rfl⟩ := Option.map_eq_some_iff.1 target
    have was : l'.2.target? = some exit := by
      simp only [isRetargeted, Bool.and_eq_true, beq_iff_eq] at redirected
      exact redirected.2
    have goal : b.spliceRole (Function.update role exit .released) (r :: parts)
        (.nth (b.length + 1 + 0)) = r := by
      rw [spliceRole_new]
      rfl
    rw [Nat.add_zero] at goal
    rw [goal]
    refine enters .plain ?_
    obtain old | new := mem_lines_insertAt.1 here'
    · exact staged.jumps l' old exit was
    · obtain ⟨_, _, _, _, none⟩ := acts.at_fresh (fun _ => .plain) new
      rw [none] at was
      cases was
  · next kept =>
    refine others l' here' t target fun same => kept ?_
    have head : (Handle.nth (b.length + 1), i) ∈ b.fresh (i :: run) := mem_fresh.2 ⟨0, i, rfl, rfl⟩
    simp only [isRetargeted, Bool.and_eq_true, bne_iff_ne, ne_eq, beq_iff_eq]
    refine ⟨fun goal => ?_, by rw [target, same]⟩
    rw [line_unique here' (mem_lines_insertAt.2 (.inr head)) goal] at target
    obtain ⟨_, _, _, _, none⟩ := acts.at_fresh (b := b) (fun _ => .plain) head
    rw [none] at target
    cases target

/-- A run goes before the final exit, and the branches to the exit lead to the run. -/
theorem Staged.beforeExit (bound : b.Bound) (foreign : ∀ j, ¬sites (.nth (b.length + 1 + j)))
    (final : b.finalExit? = some exit)
    (leaves : (r :: (parts ++ [.released, .plain])).IsChain fun a b => a.leads b = true) :
    (b.released (i :: run)).Bound ∧ (b.released (i :: run)).Staged field sites
      (b.spliceRole (Function.update role exit .released) (r :: parts)) := by
  obtain ⟨p, found, last, _, result⟩ := released_eq i run final
  have cast := staged.cast_beforeExit acts enters foreign final found last leaves
  rw [result]
  refine ⟨fun l here t target => ?_, cast.retarget exit (.nth (b.length + 1)),
    fun l here t target => staged.jumps_beforeExit acts enters bound here target⟩
  rw [handles_retarget]
  obtain ⟨l', here', rfl⟩ := mem_lines_retarget.1 here
  obtain same | ⟨_, rfl⟩ := target?_retargetLine l' target
  · exact (bound.insertAt acts) l' here' t same
  · exact fst_mem_handles (mem_lines_insertAt.2 (.inr (mem_fresh.2 ⟨0, i, rfl, rfl⟩)))

end BeforeExit

/-- The release of the container goes before the final exit. -/
theorem Staged.released (staged : b.Staged field sites role) (bound : b.Bound)
    (foreign : ∀ j, ¬sites (.nth (b.length + 1 + j))) (clear : ∀ h, role h ≠ .released)
    (named : f.name = field) (standard : c.Standard) {exit : Handle}
    (final : b.finalExit? = some exit) :
    (b.released (releaseField f c.containerRelease)).Bound ∧
      ∃ role', (b.released (releaseField f c.containerRelease)).Staged field sites role' ∧
        role' exit = .released := by
  have acts : Acts field [.releaseThis, .releaseLoad, .releaseCall]
      (releaseField f c.containerRelease) :=
    .cons ⟨rfl, by decide, rfl⟩ (.cons ⟨⟨_, rfl, named⟩, by decide, rfl⟩
      (.cons ⟨⟨_, rfl, standard.releaseParams, standard.releaseType, standard.releaseName⟩,
        by decide, rfl⟩ .nil))
  have plain : role exit = .plain := (staged.role_exit final).resolve_right (clear exit)
  obtain ⟨bound', staged'⟩ := staged.beforeExit acts
    (fun a leads => Role.leads_of_leads_plain (plain ▸ leads) rfl) bound foreign final (by decide)
  refine ⟨bound', _, staged', ?_⟩
  rw [spliceRole_old (mem_handles_of_finalExit? final), Function.update_self]

/-- Further releases may go between the release of the container and the final exit. -/
theorem Staged.released_again (staged : b.Staged field sites role) (bound : b.Bound)
    (foreign : ∀ j, ¬sites (.nth (b.length + 1 + j))) {exit : Handle}
    (final : b.finalExit? = some exit) (done : role exit = .released) {i : Instr}
    (apart : ∀ i' ∈ i :: run, i'.accessed? = none ∧ i'.target? = none) :
    (b.released (i :: run)).Bound ∧
      ∃ role', (b.released (i :: run)).Staged field sites role' ∧ role' exit = .released := by
  have acts (run : List Instr) (apart : ∀ i ∈ run, i.accessed? = none ∧ i.target? = none) :
      Acts field (List.replicate run.length .released) run := by
    induction run with
    | nil => exact .nil
    | cons i run ih =>
      refine .cons ⟨fun f accessed => ?_, by decide, (apart i List.mem_cons_self).2⟩
        (ih fun i' listed => apart i' (List.mem_cons_of_mem i listed))
      rw [(apart i List.mem_cons_self).1] at accessed
      cases accessed
  have chain (count : Nat) : (Role.released :: (List.replicate count .released ++
      [.released, .plain])).IsChain fun a b => a.leads b = true := by
    induction count with
    | zero => decide
    | succ count ih => exact ih.cons_cons rfl
  obtain ⟨bound', staged'⟩ := staged.beforeExit (acts (i :: run) apart)
    (fun a leads => done ▸ leads) bound foreign final (chain run.length)
  refine ⟨bound', _, staged', ?_⟩
  rw [spliceRole_old (mem_handles_of_finalExit? final), Function.update_self]

end Body

end ReleaseWeaver
