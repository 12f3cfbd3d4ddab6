import ReleaseWeaver.Proofs.Commands.Teardowns
import ReleaseWeaver.Proofs.Weave.Again

/-
  Releases in the woven module, on the way from a class to the teardown that its objects ran before.
  Each command target on the way has a teardown of its own in the end: what became of the one that
  it declared, which is followed in lockstep up to its releases, or an override, which calls the
  next one further up. So those above release their commands first. Main statement:
  `Program.exists_returnsReleased`.
-/

namespace ReleaseWeaver

/-- Of the types from the one name upwards, those before the first of the other name, and that one. -/
def Module.UpTo (m : Module) (name other between : String) : Prop :=
  ∃ k, m.above k name = some between ∧ ∀ j < k, m.above j name ≠ some other

theorem Module.UpTo.trans {m : Module} {name other middle between : String}
    (first : m.UpTo name other middle) (further : m.UpTo middle other between) :
    m.UpTo name other between := by
  obtain ⟨j, reached, before⟩ := first
  obtain ⟨k, reached', before'⟩ := further
  refine ⟨j + k, by rw [above_add, reached, Option.bind_some, reached'], fun i inside => ?_⟩
  by_cases early : i < j
  · exact before i early
  · obtain ⟨i, rfl⟩ := Nat.exists_eq_add_of_le (Nat.le_of_not_lt early)
    rw [above_add, reached, Option.bind_some]
    exact before' i (by omega)

/-- The names that the first so many steps up a chain come to. -/
def Module.firstAbove (m : Module) (count : Nat) (name : String) : List String :=
  (List.range count).filterMap fun k => m.above k name

theorem Module.UpTo.mem_firstAbove {m : Module} {name other between : String} {k : Nat}
    (upTo : m.UpTo name other between) (reached : m.above k name = some other) :
    between ∈ m.firstAbove (k + 1) name := by
  obtain ⟨j, here, before⟩ := upTo
  have bound : j ≤ k := Nat.le_of_not_lt fun beyond => before k beyond reached
  exact List.mem_filterMap.2 ⟨j, List.mem_range.2 (Nat.lt_succ_of_le bound), here⟩

namespace Machine

/-- The request calls a method without parameters for a value, with the code that is found from a
class upwards. -/
def Request.StartsAt (p : Program) (className method : String) (this : Value) (h : Heap)
    (request : Request) : Prop :=
  ∀ callee, p.lookup className method 0 = some callee →
    p.perform ⟨h, 0⟩ [] request = enter ⟨h, 0⟩ [] callee [this]

namespace Program

open ReleaseWeaver.Module
open Weave (Completed Preparation start)

/-- The types from the one up to the other are no released handle targets, and what a run calls in
their teardowns can be called: the getters and the releases of their values. -/
structure Releasable (p : Program) (config : Config) (release : MethodRef) (this : Value)
    (good : Heap → Prop) (name other : String) : Prop where
  untracked : ∀ x, p.module.UpTo name other x → p.module.isReleased config .trackHandles x = false
  releases : ∀ x, p.module.UpTo name other x → ∀ getter ∈ p.module.releasedCommands config x,
    (p.woven config).Releases release this good getter

/-- The request returns, and the values that the getters give have been released one after the other
if the request is complete; all of them are released in the end if their releases last. -/
def ReturnsReleased (p : Program) (release : MethodRef) (this : Value) (good : Heap → Prop)
    (getters : List MethodRef) (h : Heap) (request : Request) (complete : Prop) : Prop :=
  ∃ h₁ h' values result, p.Settles h request h' result ∧ good h' ∧
    (complete → p.ReleasesEach release this h₁ getters values h' ∧ (∀ v ∈ values, v ≠ .null) ∧
      ((∀ getter ∈ getters, p.Lasts release this good getter) →
        ∀ v ∈ values, h'.isReleased v = .ok true))

theorem ReturnsReleased.imp {p : Program} {release : MethodRef} {this : Value} {good : Heap → Prop}
    {getters : List MethodRef} {h : Heap} {request : Request} {complete complete' : Prop}
    (returns : p.ReturnsReleased release this good getters h request complete)
    (stronger : complete' → complete) :
    p.ReturnsReleased release this good getters h request complete' := by
  obtain ⟨h₁, h', values, result, settles, good', all⟩ := returns
  exact ⟨h₁, h', values, result, settles, good', all ∘ stronger⟩

variable {c : WeaveContext} {p : Program} {names : List String}
  {given : List (String × MethodKey)} {name method : String} {count k : Nat}
  {key ancestor : MethodKey} {own : MethodDef} {b : Body} {h h₁ : Heap} {request : Request}
  {result : Option Value} {release : MethodRef} {getters : List MethodRef} {this : Value}
  {good : Heap → Prop} {complete : Prop}

theorem upTo_of_finds {j : Nat} {other : String} (finds : p.Finds method count k name key own b)
    (bound : j ≤ k) (reached : p.module.above j name = some other) :
    p.module.UpTo name key.owner other :=
  ⟨j, reached, fun i before same => finds.answers.not_goesPast
    (finds.passes i (Nat.lt_of_lt_of_le before bound) _ same)⟩

/-- A request that comes to the head of the releases. -/
theorem returnsReleased_of_arrives {s : State} {steps : Nat} {f : Frame}
    (releases : ∀ getter ∈ getters, p.Releases release this good getter) (still : good h₁)
    (plain : release.params = []) (starts : p.perform ⟨h, 0⟩ [] request = .running s)
    (arrives : p.Goes s ⟨⟨h₁, steps⟩, .frame f, []⟩) (own : f.args[0]? = some this)
    (returns : f.returnsValue = true → f.stack ≠ [])
    (lines : ∀ (k : Nat) i, (releaseEach getters release ++ [.ret])[k]? = some i →
      f.body.instrs[f.position + k]? = some i) :
    p.ReturnsReleased release this good getters h request complete := by
  obtain ⟨values, h', each, good', solid, all⟩ := exists_releasesEach releases still
  obtain ⟨result, settles⟩ := each.settles steps starts arrives own
    (fun getter listed => ⟨(releases getter listed).plain, (releases getter listed).gives⟩) plain
    returns lines
  exact ⟨h₁, h', values, result, settles, good', fun _ => ⟨each, solid, fun last => (all last).1⟩⟩

/-! ## A teardown of the class itself -/

theorem perform_of_startsAt (starts : request.StartsAt p name method this h)
    (found : p.lookup name method 0 = some (.body key own b)) :
    p.perform ⟨h, 0⟩ [] request = .running ⟨⟨h, 0⟩, .frame (Frame.start key own b [this]), []⟩ :=
  starts _ found

/-- A call through a type that names its method, on the value and not dispatched. -/
theorem startsAt_invoke {call : MethodRef} (declaring : call.declaring.definitionName = name)
    (named : call.name = method) (plain : call.params = []) (hasThis : call.hasThis = true)
    (p : Program) (this : Value) (h : Heap) :
    (Request.invoke (.on call this false)).StartsAt p name method this h := by
  intro callee found
  have arity : call.arity = 1 := by
    rw [MethodRef.arity, hasThis, plain]
    rfl
  have start : p.startClass h (.on call this false) = .ok name :=
    declaring ▸ startClass_static rfl
  show p.invoke ⟨h, 0⟩ [] (.on call this false) = _
  rw [invoke, Program.callee, start]
  dsimp only
  rw [show (Call.on call this false).method = call from rfl, named, plain,
    show ([] : List TypeRef).length = 0 from rfl, found, Call.on, arity]
  rfl

section Woven

variable (completed : Completed c p.module (p.module.weave c.config))
  (run : Preparation c.disposal names p.module given (start c p.module))

include completed run

/-- A release that comes to an override runs what the override calls and then the releases. -/
theorem returnsReleased_given {other : String}
    (starts : request.StartsAt (p.woven c.config) name c.config.releaseMethod this h)
    (there : p.module.above k name = some other)
    (past : ∀ i < k, ∀ x, p.module.above i name = some x →
      (p.woven c.config).GoesPast c.config.releaseMethod 0 x)
    (listed : (other, ancestor) ∈ given) (without : p.GoesPast c.config.releaseMethod 0 other)
    (untracked : p.module.isReleased c.config .trackHandles other = false)
    (releases : ∀ getter ∈ p.module.releasedCommands c.config other,
      (p.woven c.config).Releases c.collaborators.contractRelease this good getter)
    (base : ∀ request : Request,
      request.StartsAt (p.woven c.config) ancestor.owner c.config.releaseMethod this h →
        ∃ h₁ result, (p.woven c.config).Settles h request h₁ result ∧ good h₁) :
    (p.woven c.config).ReturnsReleased c.collaborators.contractRelease this good
      (p.module.releasedCommands c.config other) h request complete := by
  obtain ⟨inherited, override, teardown, returns, answers⟩ :=
    answers_given completed run listed without untracked
  obtain ⟨_, gives, _⟩ := run.declared?_given listed
  obtain ⟨_, above⟩ := gives.above
  obtain ⟨named, plain, hasThis⟩ := refIn_of_isTeardown teardown
    (p.module.refAbove other ancestor.owner)
  obtain ⟨h₁, result, settles, still⟩ := base (.invoke (.on _ this false))
    (startsAt_invoke (definitionName_refAbove above gives.strict) named plain hasThis _ this h)
  have performs := perform_of_startsAt starts
    (lookup_woven completed there past without.1 answers)
  generalize started : Frame.start _ override _ [this] = f at performs
  have prolongs := Body.prolongs_rewritten (c := c)
    (b := .ofInstrs
      [.ldthis, .call (inherited.refIn (p.module.refAbove other ancestor.owner)), .ret])
    (p.module.straight_commandReleases c other) rfl
  have line (q : Nat) {i : Instr} (before : q + 1 < 3) (straight : i.target? = none)
      (here : (Body.ofInstrs
        [.ldthis, .call (inherited.refIn (p.module.refAbove other ancestor.owner)),
          .ret]).instrs[q]? = some i) : f.body.instrs[q]? = some i := by
    obtain ⟨i', here', leads⟩ := prolongs.front q i before here
    cases leads with
    | same => exact started ▸ here'
    | branch => cases straight
  have loads := goes_ldthis (p := p.woven c.config) (h := h) [] 0 (f := f) (v := this)
    (by rw [← started]; rfl) (by rw [← started] at line ⊢; exact line 0 (by decide) rfl rfl)
  obtain ⟨steps, stack, calls, _, pushes⟩ := goes_call [] 1 plain
    (f := f.continueWith (this :: f.stack)) rfl
    (by rw [← started] at line ⊢; exact line 1 (by decide) rfl rfl) settles
  refine returnsReleased_of_arrives releases still
    (Collaborators.params_contractRelease completed.weavable.bound.collaborators) performs
    (loads.trans calls) (by rw [← started]; rfl) (fun value => ?_) fun k i here => ?_
  · have value : inherited.returns.isSome = true := by
      rw [← returns]
      rw [← started] at value
      exact value
    obtain ⟨below, _, same⟩ := pushes value
    show stack ≠ []
    rw [same]
    exact List.cons_ne_nil _ below
  · rw [← started]
    exact prolongs.run k i here

variable (finishes : (p.woven c.config).Finishes
    ⟨⟨h, 0⟩, .frame (Frame.start key own b [this]), []⟩ h₁ result) (still : good h₁)

include finishes still

/-- A release that comes to a teardown which its class declared returns early where the code of
that does, or comes to the releases. -/
theorem returnsReleased_own
    (starts : request.StartsAt (p.woven c.config) name c.config.releaseMethod this h)
    (finds : p.Finds c.config.releaseMethod 0 k name key own b)
    (past : ∀ i < k, ∀ x, p.module.above i name = some x →
      (p.woven c.config).GoesPast c.config.releaseMethod 0 x)
    (declared : p.module.declared? c.disposal key.owner = some (key, own))
    (untracked : p.module.isReleased c.config .trackHandles key.owner = false)
    (releases : ∀ getter ∈ p.module.releasedCommands c.config key.owner,
      (p.woven c.config).Releases c.collaborators.contractRelease this good getter) :
    (p.woven c.config).ReturnsReleased c.collaborators.contractRelease this good
      (p.module.releasedCommands c.config key.owner) h request
      (¬(p.woven c.config).LeavesEarly ⟨⟨h, 0⟩, .frame (Frame.start key own b [this]), []⟩) := by
  obtain ⟨own', named, returns, body, before, answers⟩ :=
    answers_woven completed run finds.answers declared untracked
  have performs := perform_of_startsAt starts
    (lookup_woven completed finds.there past finds.bare answers)
  have same : Frame.start key (own'.rewritten c { last := p.module.commandReleases c key.owner })
      (b.rewritten c { last := p.module.commandReleases c key.owner }) [this] =
        (Frame.start key own b [this]).into _ :=
    Frame.start_into named returns (Body.locals_rewritten c _ b) key [this]
  rw [same] at performs
  obtain ⟨t, known, own''⟩ := Option.bind_eq_some_iff.1 before
  by_cases released : p.module.isReleased c.config .releaseCommands key.owner = true
  · rw [completed.isReleased_eq] at released
    obtain ⟨t', teardown, known', _, _, planned⟩ :=
      Weave.planned_of_releases completed.weavable.bound.markers released
    obtain ⟨own₀, exit, declared₀, final⟩ := Weave.ownTeardown?_of_requiredPlan planned
    cases known.symm.trans known'
    cases own''.symm.trans declared₀
    rw [MethodDef.finalExit?, body, Option.bind_some] at final
    have prolongs := Body.prolongs_rewritten (c := c)
      (p.module.straight_commandReleases c key.owner) final
    obtain ⟨early, returns⟩ | ⟨steps, f, arrives, continues, last, filled⟩ :=
      finishes.prolonged prolongs
    · refine ⟨h₁, h₁, [], result, returns.settles performs, still, fun leaves => ?_⟩
      exact absurd early leaves
    · have receiver : f.args[0]? = some this := by
        rw [continues.args]
        rfl
      refine returnsReleased_of_arrives releases still
        (Collaborators.params_contractRelease completed.weavable.bound.collaborators) performs
        arrives receiver filled fun k i here => ?_
      have line := prolongs.run k i here
      rwa [show b.length - 1 = f.position from Nat.sub_eq_of_eq_add last.symm] at line
  · -- Nothing is put into the teardown of a type that is not released.
    have none : p.module.releasedCommands c.config key.owner = [] := by
      rw [completed.releasedCommands_eq known, if_neg released]
    have nothing : p.module.commandReleases c key.owner = [] := by
      rw [commandReleases, none]
      rfl
    rw [nothing, Body.rewritten_nil] at performs
    rw [none]
    exact ⟨h₁, h₁, [], result, finishes.settles performs, still,
      fun _ => ⟨.done, List.forall_mem_nil _, fun _ => List.forall_mem_nil _⟩⟩

/-- By induction on the number of types between: a release comes to what became of the teardown
that it came to, or to an override on the way, which releases the same from further up first. -/
theorem exists_returnsReleased
    (starts : request.StartsAt (p.woven c.config) name c.config.releaseMethod this h)
    (finds : p.Finds c.config.releaseMethod 0 k name key own b)
    (declared : p.module.declared? c.disposal key.owner = some (key, own))
    (releasable : p.Releasable c.config c.collaborators.contractRelease this good name key.owner) :
    ∃ j other, p.module.above j name = some other ∧
      (∀ i < j, ∀ x, p.module.above i name = some x →
        (p.woven c.config).GoesPast c.config.releaseMethod 0 x) ∧
      (p.woven c.config).ReturnsReleased c.collaborators.contractRelease this good
        (p.module.releasedCommands c.config other) h request (key.owner = other →
          ¬(p.woven c.config).LeavesEarly ⟨⟨h, 0⟩, .frame (Frame.start key own b [this]), []⟩) := by
  induction k using Nat.strongRecOn generalizing name request with
  | ind k ih =>
    obtain ⟨j, bound, other, reached, stops, passes⟩ := exists_stop completed run finds
    have past : ∀ i < j, ∀ x, p.module.above i name = some x →
        (p.woven c.config).GoesPast c.config.releaseMethod 0 x :=
      fun i before x reached => (passes i before x reached).2
    have upTo := upTo_of_finds finds bound reached
    refine ⟨j, other, reached, past, ?_⟩
    by_cases owns : other = key.owner
    · subst owns
      have finds' : p.Finds c.config.releaseMethod 0 j name key own b :=
        ⟨reached, fun i before => finds.passes i (Nat.lt_of_lt_of_le before bound), finds.bare,
          finds.answers⟩
      exact (returnsReleased_own completed run finishes still starts finds' past declared
        (releasable.untracked _ upTo) (releasable.releases _ upTo)).imp fun leaves => leaves rfl
    · obtain ⟨⟨_, ancestor⟩, listed, rfl⟩ := List.mem_map.1 (stops.resolve_left owns)
      have before : j < k := by
        refine Nat.lt_of_le_of_ne bound ?_
        rintro rfl
        exact owns (Option.some.inj (reached.symm.trans finds.there))
      refine returnsReleased_given completed run starts reached past listed
        (finds.passes j before _ reached) (releasable.untracked _ upTo) (releasable.releases _ upTo)
        fun request' starts' => ?_
      -- The override calls the teardown of a type no further up than the one that ran before.
      obtain ⟨n, above, nothing⟩ := run.first_given listed
      have rest := finds.onward bound reached
      have short : n + 1 ≤ k - j := by
        by_contra beyond
        have none := (nothing (k - j) (by omega) _ rest.there).1
        rw [declared] at none
        cases none
      have further := rest.onward short above
      obtain ⟨_, _, _, _, _, h', _, result', settles', good', _⟩ :=
        ih (k - j - (n + 1)) (by omega) starts' further
          ⟨fun x upTo' => releasable.untracked x
              (upTo.trans ((upTo_of_finds rest short above).trans upTo')),
            fun x upTo' => releasable.releases x
              (upTo.trans ((upTo_of_finds rest short above).trans upTo'))⟩
      exact ⟨h', result', settles', good'⟩

end Woven

end Program

end Machine

end ReleaseWeaver
