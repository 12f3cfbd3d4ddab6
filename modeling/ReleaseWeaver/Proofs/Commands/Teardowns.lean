import ReleaseWeaver.Proofs.Commands.Values
import ReleaseWeaver.Proofs.Machine.Search
import ReleaseWeaver.Proofs.Tracking.Chaining
import ReleaseWeaver.Proofs.Weave.Generics

/-
  The teardowns of command targets, as a run leaves them. A target that is no handle target has the
  releases of its commands before the final exit of its teardown and is otherwise as it was: so the
  woven body prolongs the old one, and a class that has none of its own finds an override that calls
  what it would have found.
-/

namespace ReleaseWeaver

/-! ## Bodies with releases only -/

theorem Lines.withAfterEach_nil (site : Instr → Bool) (start : Nat)
    (lines : List (Handle × Instr)) : withAfterEach site [] start lines = lines := by
  induction lines generalizing start with
  | nil => rfl
  | cons l rest ih =>
    rw [withAfterEach, ih, ih]
    split <;> rfl

namespace Body

variable {b : Body} {c : WeaveContext} {run : List Instr} {exit : Handle}

theorem lines_rewritten_last (c : WeaveContext) (straight : ∀ i ∈ run, i.target? = none)
    (b : Body) : (b.rewritten c { last := run }).lines =
      Lines.withBeforeExit run b.length b.lines := by
  rw [lines_rewritten c (e := { last := run }) straight, Insertions.applied]
  dsimp only
  rw [Lines.withAfterEach_nil]
  rfl

theorem rewritten_nil (c : WeaveContext) (b : Body) : b.rewritten c { last := [] } = b := by
  have straight : ∀ i ∈ ([] : List Instr), i.target? = none := nofun
  refine ext_lines ?_ (locals_rewritten c _ b)
  rw [lines_rewritten_last c straight, Lines.withBeforeExit_nil]

theorem Prolongs.refl (ends : b.instrs.getLast? = some .ret) : b.Prolongs b [] where
  ends := ends
  locals := rfl
  front q i _ here := by
    refine ⟨i, here, ?_⟩
    cases i with
    | branch on t => exact .branch fun _ there => there
    | _ => exact .same rfl
  run k i here := by
    obtain ⟨inside, _⟩ := List.getElem?_eq_some_iff.1 here
    obtain rfl : k = 0 := Nat.lt_one_iff.1 inside
    cases here
    rw [← ends, List.getLast?_eq_getElem?, instrs, List.length_map]
    rfl

/-- A body with releases before its final exit goes on with them where the old one returns. -/
theorem prolongs_rewritten (straight : ∀ i ∈ run, i.target? = none)
    (final : b.finalExit? = some exit) : b.Prolongs (b.rewritten c { last := run }) run := by
  have locals := locals_rewritten c { last := run } b
  have lines := lines_rewritten_last c straight b
  obtain ⟨init, split⟩ := List.getLast?_eq_some_iff.1 (finalExit?_eq_some.1 final)
  have ends : b.instrs.getLast? = some .ret := by
    rw [instrs, split, List.map_append]
    exact List.getLast?_concat
  by_cases filled : run = []
  · subst filled
    rw [rewritten_nil]
    exact .refl ends
  have length : b.length = init.length + 1 := by rw [Body.length, split, List.length_append]; rfl
  rw [split, Lines.withBeforeExit_concat filled] at lines
  have line (q : Nat) {l : Handle × Instr} (here : init[q]? = some l) :
      (b.rewritten c { last := run }).lines[q]? =
        some (l.1, l.2.redirect exit (.nth (b.length + 1))) := by
    rw [lines, List.getElem?_append_left, List.getElem?_map, here, Option.map_some]
    rw [List.length_map]
    exact (List.getElem?_eq_some_iff.1 here).1
  have old {q : Nat} {l : Handle × Instr} (before : q < init.length) (here : b.lines[q]? = some l) :
      init[q]? = some l := by
    rwa [split, List.getElem?_append_left before] at here
  -- A branch to the final exit leads to the head of the run, which has its place.
  have leads (t : Handle) (q : Nat) (there : b.position? t = some q) :
      (b.rewritten c { last := run }).position?
        (if t = exit then .nth (b.length + 1) else t) = some q := by
    obtain ⟨i, here⟩ := position?_eq_some.1 there
    obtain before | last : q < init.length ∨ q = init.length := by
      have inside := (List.getElem?_eq_some_iff.1 here).1
      rw [← Body.length, length] at inside
      omega
    · have listed := List.mem_of_getElem? (old before here)
      have other : t ≠ exit := by
        rintro rfl
        have distinct := b.nodup_handles
        rw [handles, split, List.map_append] at distinct
        exact (List.nodup_append.1 distinct).2.2 t (List.mem_map_of_mem listed) t
          (List.mem_singleton_self t) rfl
      rw [if_neg other]
      exact position?_eq_some.2 ⟨_, line q (old before here)⟩
    · subst last
      rw [split, List.getElem?_concat_length] at here
      cases here
      rw [if_pos rfl]
      obtain ⟨i, rest, rfl⟩ := List.exists_cons_of_ne_nil filled
      refine position?_eq_some.2 ⟨i, ?_⟩
      rw [lines, List.getElem?_append_right (by rw [List.length_map]), List.length_map,
        Nat.sub_self]
      rfl
  refine ⟨ends, locals, fun q i before here => ?_, fun k i here => ?_⟩
  · rw [length] at before
    rw [instrs, List.getElem?_map] at here
    obtain ⟨l, there, rfl⟩ := Option.map_eq_some_iff.1 here
    refine ⟨l.2.redirect exit (.nth (b.length + 1)), ?_, ?_⟩
    · rw [instrs, List.getElem?_map, line q (old (by omega) there), Option.map_some]
    · cases l.2 with
      | branch on t => exact .branch (leads t)
      | _ => exact .same rfl
  · have runs : (Lines.numbered b.length run ++ [(exit, Instr.ret)]).map Prod.snd =
        run ++ [.ret] := by
      rw [List.map_append, Lines.numbered, List.map_snd_zip (by rw [Handle.length_series])]
      rfl
    rw [instrs, lines, List.map_append, runs, List.map_map, length, Nat.add_sub_cancel,
      List.getElem?_append_right (by rw [List.length_map]; omega), List.length_map,
      Nat.add_sub_cancel_left]
    exact here

end Body

/-! ## What goes into a teardown -/

namespace Module

/-- Whether a run releases the type of a name as a target of the family. -/
def isReleased (m : Module) (config : Config) (family : Family) (typeName : String) : Bool :=
  (m.weave config).entries.any fun entry =>
    entry.family = family && entry.typeName == typeName && entry.isReleased

/-- The getters that a run calls in the teardown of a type: those of its commands in scope, if it
is released. -/
def releasedCommands (m : Module) (config : Config) (typeName : String) : List MethodRef :=
  match Collaborators.resolve m config with
  | .error _ => []
  | .ok collaborators =>
    let c : WeaveContext := ⟨config, collaborators, MarkerTable.collect m config.markers⟩
    if m.isReleased config .releaseCommands typeName then
      ((Weave.start c m).findType? typeName).elim [] (m.commandGetters c)
    else []

/-- The lines that a run puts before the final exit of a type's teardown to release its commands. -/
def commandReleases (m : Module) (c : WeaveContext) (typeName : String) : List Instr :=
  releaseEach (m.releasedCommands c.config typeName) c.collaborators.contractRelease

theorem straight_commandReleases (m : Module) (c : WeaveContext) (typeName : String) :
    ∀ i ∈ m.commandReleases c typeName, i.target? = none := by
  intro i listed
  obtain ⟨getter, _, inside⟩ := List.mem_flatMap.1 listed
  exact (straight_releaseProperty getter _ i inside).target

end Module

namespace Weave.Completed

open ReleaseWeaver.Module

variable {c : WeaveContext} {m : Module} {name : String} {key : MethodKey} {own : MethodDef}
  {t : TypeDef} (completed : Completed c m (m.weave c.config))

include completed

theorem isReleased_eq (family : Family) (name : String) :
    m.isReleased c.config family name = (reports c m).releases family name := by
  have entries : (m.weave c.config).entries = (reports c m).targets := by
    rw [WeaveOutcome.entries, completed.result]
  rw [isReleased, entries]
  rfl

theorem releasedCommands_eq (known : (start c m).findType? name = some t) :
    m.releasedCommands c.config name =
      if m.isReleased c.config .releaseCommands name then m.commandGetters c t else [] := by
  have bound := completed.weavable.bound
  have context : (⟨c.config, c.collaborators, MarkerTable.collect m c.config.markers⟩ :
      WeaveContext) = c := by
    rw [← bound.markers]
  unfold releasedCommands
  rw [bound.collaborators]
  dsimp only
  rw [context, known]
  rfl

/-- Into the teardown of a type that is no handle target go the releases of its commands. -/
theorem inserted_untracked (untracked : m.isReleased c.config .trackHandles name = false)
    (declared : (start c m).declared? c.disposal name = some (key, own)) :
    m.inserted c key own = { last := m.commandReleases c name } := by
  have collected := completed.weavable.bound.markers
  obtain ⟨t, known, own'⟩ := Option.bind_eq_some_iff.1 declared
  obtain ⟨owned, _⟩ := (declared?_eq_some.1 declared).1
  rw [completed.isReleased_eq] at untracked
  rw [commandReleases, completed.releasedCommands_eq known, completed.isReleased_eq]
  unfold inserted
  rw [owned, known]
  dsimp only
  split
  · next accepted =>
    rw [Bool.and_eq_true, Option.isNone_iff_eq_none] at accepted
    have unmarked : Target.ofType? c.markers .trackHandles t = none := by
      refine Option.eq_none_iff_forall_ne_some.2 fun target chosen => ?_
      obtain ⟨_, _, released⟩ := releases_of_chosen collected known accepted.1 accepted.2 chosen
      rw [untracked] at released
      cases released
    have getters : (if (reports c m).releases .releaseCommands name = true then
        m.commandGetters c t else []) = m.commandGetters c t := by
      split
      · rfl
      · next idle =>
        refine (commandGetters_of_none
          (Option.eq_none_iff_forall_ne_some.2 fun target chosen => ?_)).symm
        exact idle (releases_of_chosen collected known accepted.1 accepted.2 chosen).2.2
    rw [getters, insertions, unmarked, WeaveContext.insertions]
    simp [own', releaseEach, releaseProperty]
  · next refused =>
    have idle : (reports c m).releases .releaseCommands name ≠ true := by
      intro released
      obtain ⟨t', _, known', isLocal, _⟩ := planned_of_releases collected released
      rw [known] at known'
      cases known'
      refine refused ?_
      rw [isLocal, (releases_iff.1 released).2]
      rfl
    rw [if_neg idle]
    rfl

end Weave.Completed

/-! ## The classes of a woven program -/

/-- The same invocation starts in both bodies. -/
theorem Machine.Frame.start_into {d d' : MethodDef} {b b' : Body} (named : d'.name = d.name)
    (returns : d'.returns = d.returns) (locals : b'.locals = b.locals) (key : MethodKey)
    (args : List Value) : start key d' b' args = (start key d b args).into b' := by
  simp only [start, into, named, returns, locals]

namespace Machine.Program

open ReleaseWeaver.Module
open Weave (Completed Preparation start)

/-- The program with its module woven. -/
def woven (p : Program) (config : Config) : Program :=
  { p with module := (p.module.weave config).module }

variable {c : WeaveContext} {p : Program} {names : List String} {given : List (String × MethodKey)}
  {name method : String} {count : Nat} {key ancestor : MethodKey} {own : MethodDef} {b : Body}
  (completed : Completed c p.module (p.module.weave c.config))
  (run : Preparation c.disposal names p.module given (start c p.module))

/-- Base chains are what they were, so what is passed and what answers decides. -/
theorem lookup_woven {k : Nat} {d : MethodDef}
    (completed : Completed c p.module (p.module.weave c.config))
    (there : p.module.above k name = some key.owner)
    (past : ∀ i < k, ∀ x, p.module.above i name = some x →
      (p.woven c.config).GoesPast method count x)
    (bare : p.natives (nativeName key.owner method) = none)
    (answers : Answers (p.woven c.config).module method count key d b) :
    (p.woven c.config).lookup name method count = some (.body key d b) := by
  have same : (p.woven c.config).module.above = p.module.above := above_of_shapes completed.shapes
  exact lookup_eq_body_iff.2 ⟨k, same ▸ there, same ▸ past, bare, answers⟩

theorem ungiven_of_declared (run : Preparation c.disposal names p.module given (start c p.module))
    (declared : p.module.declared? c.disposal name = some (key, own)) :
    name ∉ given.map Prod.fst := by
  intro listed
  obtain ⟨t, known, needed⟩ := (run.mem_given_iff.1 listed).2
  rw [((needsOverride_iff known).1 ⟨t, known, needed⟩).2.1] at declared
  cases declared

/-- The class of a released target has a teardown of its own in the end. -/
theorem not_goesPast_released (completed : Completed c p.module (p.module.weave c.config))
    {family : Family} (released : p.module.isReleased c.config family name = true) :
    ¬(p.woven c.config).GoesPast c.config.releaseMethod 0 name := by
  rintro ⟨_, nothing⟩
  rw [completed.isReleased_eq] at released
  obtain ⟨t, teardown, known, _, _, planned⟩ :=
    Weave.planned_of_releases completed.weavable.bound.markers released
  obtain ⟨own, exit, own', final⟩ := Weave.ownTeardown?_of_requiredPlan planned
  have declared : (start c p.module).declared? c.disposal name = some (teardown, own) :=
    (declared?_of_known known).trans own'
  obtain ⟨⟨rfl, _⟩, found⟩ := declared?_eq_some.1 declared
  have after := completed.findMethod? teardown
  rw [found, Option.map_some] at after
  have none : (own.rewritten c (p.module.inserted c teardown own)).body = none :=
    nothing teardown.index _ after (answersTo_of_isTeardown (isTeardown_of_declared declared))
  obtain ⟨b, body, _⟩ := Option.bind_eq_some_iff.1 final
  rw [MethodDef.rewritten, body] at none
  cases none

include completed run

/-- A method that no override is answers calls as before, and has a body if it had one. -/
theorem findMethod?_woven (old : ∀ name ∈ given.map Prod.fst, key ≠ p.module.nextMethodKey name) :
    ∃ opens : Bool, ∃ e : MethodDef → Insertions, (p.woven c.config).module.findMethod? key =
      (p.module.findMethod? key).map fun d => (d.openedIf opens).rewritten c (e d) := by
  have found := completed.findMethod? key
  rw [run.findMethod?_other old, Option.map_map] at found
  exact ⟨_, fun d => p.module.inserted c key (d.openedIf _), found⟩

theorem body_woven (old : ∀ name ∈ given.map Prod.fst, key ≠ p.module.nextMethodKey name)
    (nothing : ∀ d, p.module.findMethod? key = some d → d.answersTo method count = true →
      d.body = none) :
    ∀ d, (p.woven c.config).module.findMethod? key = some d → d.answersTo method count = true →
      d.body = none := by
  intro d found answers
  obtain ⟨opens, e, same⟩ := findMethod?_woven completed run old
  rw [same] at found
  obtain ⟨d₀, found₀, rfl⟩ := Option.map_eq_some_iff.1 found
  have body : d₀.body = none := nothing d₀ found₀ answers
  show d₀.body.map _ = none
  rw [body, Option.map_none]

/-- A class that gets no override is passed as before. -/
theorem goesPast_woven (ungiven : name ∉ given.map Prod.fst) (past : p.GoesPast method count name) :
    (p.woven c.config).GoesPast method count name := by
  refine ⟨past.1, fun i => body_woven completed run (fun other listed same => ?_) (past.2 i)⟩
  obtain rfl : name = other := congrArg MethodKey.owner same
  exact ungiven listed

/-- A class that declares its teardown answers with what the run makes of it. -/
theorem answers_woven (answers : Answers p.module c.config.releaseMethod 0 key own b)
    (declared : p.module.declared? c.disposal key.owner = some (key, own))
    (untracked : p.module.isReleased c.config .trackHandles key.owner = false) :
    ∃ own', own'.name = own.name ∧ own'.returns = own.returns ∧ own'.body = some b ∧
      (start c p.module).declared? c.disposal key.owner = some (key, own') ∧
      Answers (p.woven c.config).module c.config.releaseMethod 0 key
        (own'.rewritten c { last := p.module.commandReleases c key.owner })
        (b.rewritten c { last := p.module.commandReleases c key.owner }) := by
  have ungiven := ungiven_of_declared run declared
  have before := run.declared?_other ungiven
  rw [declared, Option.map_some] at before
  have found := completed.findMethod? key
  rw [(declared?_eq_some.1 before).2, Option.map_some,
    completed.inserted_untracked untracked before] at found
  refine ⟨own.openedIf (p.module.opens (given.map Prod.snd) key), rfl, rfl, answers.body, before,
    found, answers.answers, ?_, fun j inside d found' answers' => ?_⟩
  · show Option.map _ own.body = _
    rw [answers.body, Option.map_some]
  · refine body_woven completed run (fun other listed same => ?_) (answers.first j inside) d found'
      answers'
    exact ungiven ((congrArg MethodKey.owner same : key.owner = other) ▸ listed)

/-- A class that gets an override answers with it. -/
theorem answers_given (listed : (name, ancestor) ∈ given)
    (past : p.GoesPast c.config.releaseMethod 0 name)
    (untracked : p.module.isReleased c.config .trackHandles name = false) :
    ∃ inherited override, c.disposal.isTeardown inherited = true ∧
      override.returns = inherited.returns ∧
      Answers (p.woven c.config).module c.config.releaseMethod 0 (p.module.nextMethodKey name) override
        ((Body.ofInstrs [.ldthis,
            .call (inherited.refIn (p.module.refAbove name ancestor.owner)), .ret]).rewritten c
          { last := p.module.commandReleases c name }) := by
  obtain ⟨inherited, above, declared⟩ := run.delegates listed
  have teardown := isTeardown_of_declared above
  have found := completed.findMethod? (p.module.nextMethodKey name)
  rw [(declared?_eq_some.1 declared).2, Option.map_some,
    completed.inserted_untracked untracked declared] at found
  refine ⟨inherited, (inherited.overrideVia (p.module.refAbove name ancestor.owner)).rewritten c _,
    teardown, rfl, found, answersTo_of_isTeardown (isTeardown_of_declared declared), rfl,
    fun j inside d found' answers' => ?_⟩
  refine body_woven completed run (fun other _ same => ?_) (past.2 j) d found' answers'
  obtain rfl : name = other := congrArg MethodKey.owner same
  exact Nat.ne_of_lt inside (congrArg MethodKey.index same)

/-- From a class that finds a body, the search in the woven program comes to an override, or to what
became of that body. -/
theorem exists_stop {k : Nat} (finds : p.Finds method count k name key own b) :
    ∃ j ≤ k, ∃ other, p.module.above j name = some other ∧
      (other = key.owner ∨ other ∈ given.map Prod.fst) ∧
      ∀ i < j, ∀ x, p.module.above i name = some x → x ∉ given.map Prod.fst ∧
        (p.woven c.config).GoesPast method count x := by
  obtain ⟨j, bound, ⟨other, reached, stops⟩, least⟩ :=
    exists_least (p := fun j => ∃ other, p.module.above j name = some other ∧
      (other = key.owner ∨ other ∈ given.map Prod.fst)) ⟨key.owner, finds.there, .inl rfl⟩
  refine ⟨j, bound, other, reached, stops, fun i before x reached => ?_⟩
  have ungiven : x ∉ given.map Prod.fst := fun listed => least i before ⟨x, reached, .inr listed⟩
  exact ⟨ungiven, goesPast_woven completed run ungiven
    (finds.passes i (Nat.lt_of_lt_of_le before bound) x reached)⟩

end Machine.Program

end ReleaseWeaver
