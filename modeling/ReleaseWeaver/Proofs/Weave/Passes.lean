import ReleaseWeaver.Proofs.Weave.Scope
import ReleaseWeaver.Weave.Run

/-
  Runs of the two passes, told by what they make of the module and which entries they report. A
  target is refused before anything of it changes, or it is woven whole; the only other end is a
  handle target that has a field of the tracking field's name already, which stops the handle
  pass. The messages that a pass writes as errors begin otherwise than the report of such a clash.
-/

namespace ReleaseWeaver

open Weaving

/-! ## Actions one by one -/

namespace Weaving

variable {α β : Type}

theorem bind_ok {x : Weaving α} {f : α → Weaving β} {s u : Session} {a : α}
    (first : x s = .ok a u) : (x >>= f) s = f a u := by
  show EStateM.bind x f s = f a u
  rw [EStateM.bind, first]

theorem bind_error {x : Weaving α} {f : α → Weaving β} {s s' : Session} {e : WeaveError}
    (first : x s = .error e s') : (x >>= f) s = .error e s' := by
  show EStateM.bind x f s = .error e s'
  rw [EStateM.bind, first]

theorem run_eq (x : Weaving α) (s : Session) : x.run s = x s := rfl

theorem typeNamed_run {name : String} {s : Session} {t : TypeDef}
    (known : s.module.findType? name = some t) : typeNamed name s = .ok t s := by
  show EStateM.Result.ok ((s.module.findType? name).getD default) s = .ok t s
  rw [known]
  rfl

theorem advance_run {next : TargetState} {s : Session} (later : s.entry.state.stage < next.stage) :
    advance next s = .ok () { s with entry := { s.entry with state := next } } := by
  have forward : s.entry.advance next = .ok { s.entry with state := next } := if_pos later
  show (orFail (s.entry.advance next) >>= fun entry => modifyEntry fun _ => entry) s = _
  rw [forward]
  rfl

theorem forM_say_run {level : Level} (text : α → String) (xs : List α) (s : Session) :
    xs.forM (fun x => say level (text x)) s =
      .ok () { s with log := s.log ++ xs.map fun x => { level, text := text x } } := by
  induction xs generalizing s with
  | nil =>
    rw [List.map_nil, List.append_nil]
    rfl
  | cons x rest ih =>
    have first : say level (text x) s =
        .ok () { s with log := s.log ++ [{ level, text := text x }] } := rfl
    refine (bind_ok first).trans ((ih _).trans ?_)
    rw [List.map_cons, List.append_assoc, List.singleton_append]

end Weaving

/-- The target that an entry of a report is about. -/
def TargetReport.target (r : TargetReport) : Target := ⟨r.typeName, r.family, r.wide⟩

namespace Target

/-- The entry of a target at its start. -/
def entry (target : Target) : TargetReport where
  typeName := target.typeName
  family := target.family
  wide := target.wide

/-- The entry of a target with a fault of its own. -/
def refusal (target : Target) (e : TargetError) : TargetReport := target.entry.skip e.message

/-- The entry of a handle target that is woven. -/
def trackedEntry (target : Target) (c : WeaveContext) (m : Module) : TargetReport :=
  { target.entry with
    state := .released
    registrations := (target.sites c m).length
    constructors :=
      ((m.findType? target.typeName).map fun t => t.methods.countP MethodDef.takesPrologue).getD 0 }

/-- The entry of a command target that is woven. -/
def releasedEntry (target : Target) (getters : List MethodRef) : TargetReport :=
  { target.entry with state := .released, propertiesReleased := getters.length }

end Target

/-- The reports of a run, if it has come to its end. -/
def WeaveOutcome.entries (outcome : WeaveOutcome) : List TargetReport :=
  match outcome.result with
  | .ok report => report.targets
  | .error _ => []

namespace Weave

variable {c : WeaveContext} {target : Target} {t : TypeDef} {s : Session} {plan : TeardownPlan}

/-- The plan for a disposable target, or the fault of the target. -/
def requiredPlan (c : WeaveContext) (t : TypeDef) (m : Module) : Except TargetError TeardownPlan :=
  if !m.isDisposable c.disposal t then .error (.notDisposable t.definitionName)
  else m.planTeardown c.disposal t

theorem requirePlan_run (c : WeaveContext) (t : TypeDef) (s : Session) :
    requirePlan c t s = match requiredPlan c t s.module with
      | .ok plan => .ok plan s
      | .error e => .error (.target e) s := by
  unfold requiredPlan
  by_cases disposable : s.module.isDisposable c.disposal t = true
  · simp only [disposable, Bool.not_true, Bool.false_eq_true, if_false]
    refine (bind_ok rfl).trans ?_
    dsimp only
    simp only [disposable, Bool.not_true, Bool.false_eq_true, if_false]
    cases s.module.planTeardown c.disposal t <;> rfl
  · simp only [disposable]
    refine (bind_ok rfl).trans ?_
    dsimp only
    simp only [disposable]
    rfl

theorem fits_of_requiredPlan {m : Module} {typeName : String}
    (known : m.findType? typeName = some t) (planned : requiredPlan c t m = .ok plan) :
    plan.Fits m c.disposal typeName := by
  obtain ⟨listed, rfl⟩ := Module.mem_of_findType? known
  unfold requiredPlan at planned
  split at planned
  · cases planned
  · exact Module.fits_of_planTeardown listed planned

/-- The plan for a target still fits when its prologues and registrations are in. -/
theorem fits_instrumented {m : Module} (known : m.findType? target.typeName = some t)
    (planned : requiredPlan c t m = .ok plan) :
    plan.Fits (m.instrumented c target t) c.disposal target.typeName :=
  (Module.keeps_instrumented c target t m).fits (fits_of_requiredPlan known planned)

theorem registerScope_run (c : WeaveContext) (field : FieldRef) {keys : List MethodKey}
    (once : keys.Nodup) (s : Session) : registerScope c field keys s = .ok ()
      { s with
        module := s.module.registerAll c field keys
        entry :=
          { s.entry with
            registrations := s.entry.registrations + (keys.map (s.module.callCount c)).sum } } := by
  induction keys generalizing s with
  | nil => rfl
  | cons key rest ih =>
    obtain ⟨fresh, once'⟩ := List.nodup_cons.1 once
    cases found : (s.module.findMethod? key).bind MethodDef.body with
    | none =>
      have idle : s.module.registerIn c field key = s.module := by
        refine Module.modifyMethod_eq_self fun d known => ?_
        rw [known, Option.bind_some] at found
        obtain ⟨name, returns, params, flags, visibility, attributes, body⟩ := d
        cases found
        rfl
      have zero : s.module.callCount c key = 0 := by
        rw [Module.callCount]
        cases known : s.module.findMethod? key with
        | none => rfl
        | some d =>
          rw [known, Option.bind_some] at found
          rw [Option.map_some, MethodDef.handleCalls, found]
          rfl
      have here : registerScope c field (key :: rest) s = registerScope c field rest s := by
        rw [registerScope]
        refine (bind_ok rfl).trans ?_
        dsimp only
        rw [found]
      rw [here, ih once', Module.registerAll, Module.registerAll, List.foldl_cons, idle,
        List.map_cons, List.sum_cons, zero, Nat.zero_add]
    | some b =>
      have change : s.module.modifyBody key (fun _ => b.registered c field) =
          s.module.registerIn c field key := by
        refine Module.modifyMethod_congr fun d known => ?_
        rw [known, Option.bind_some] at found
        rw [MethodDef.registered, found]
        rfl
      let calls := b.handleCalls c.collaborators.contract c.config.handleCallFragment
      let s' : Session :=
        { s with
          module := s.module.registerIn c field key
          entry := { s.entry with registrations := s.entry.registrations + calls.length } }
      have count : s.module.callCount c key = calls.length := by
        obtain ⟨d, known, body⟩ := Option.bind_eq_some_iff.1 found
        rw [Module.callCount, known, Option.map_some, MethodDef.handleCalls, body]
        rfl
      have others : rest.map (s'.module.callCount c) = rest.map (s.module.callCount c) := by
        refine List.map_congr_left fun key' listed => Module.callCount_registerIn ?_ field s.module
        rintro rfl
        exact fresh listed
      have here : registerScope c field (key :: rest) s = registerScope c field rest s' := by
        rw [registerScope]
        refine (bind_ok rfl).trans ?_
        dsimp only
        rw [found]
        dsimp only
        rw [Body.register_handleCalls]
        dsimp only
        refine (bind_ok rfl).trans ((bind_ok rfl).trans ((bind_ok rfl).trans ?_))
        dsimp only
        rw [change]
      rw [here, ih once', others, List.map_cons, List.sum_cons, count, ← Nat.add_assoc]
      rfl

theorem ensureTeardown_run {typeName : String} (known : s.module.findType? typeName = some t)
    (plan : TeardownPlan) (later : s.entry.state.stage < TargetState.teardownEnsured.stage) :
    ensureTeardown typeName plan s = .ok (s.module.ensured typeName plan).2
      { s with
        module := (s.module.ensured typeName plan).1
        entry := { s.entry with state := .teardownEnsured } } := by
  have ensured : s.module.ensureTeardown t plan = s.module.ensured typeName plan := by
    rw [Module.ensured, known]
    rfl
  unfold ensureTeardown
  refine (bind_ok rfl).trans ((bind_ok (typeNamed_run known)).trans ?_)
  rw [ensured]
  refine (bind_ok rfl).trans ((bind_ok (advance_run ?_)).trans ?_)
  · exact later
  · rfl

/-! ## One target -/

/-- What is said about marked methods that no pass can change. -/
def exclusions (c : WeaveContext) (target : Target) (t : TypeDef) : Log :=
  (target.excludedMethods c.markers t).map fun (_, d) =>
    { level := .error, text := excludedMessage t d }

theorem trackHandles_refused {e : TargetError} (known : s.module.findType? target.typeName = some t)
    (refused : requiredPlan c t s.module = .error e) :
    trackHandles c target s = .error (.target e) s := by
  have stop := requirePlan_run c t s
  rw [refused] at stop
  exact (bind_ok (typeNamed_run known)).trans (bind_error stop)

theorem trackHandles_clash (known : s.module.findType? target.typeName = some t)
    (planned : requiredPlan c t s.module = .ok plan)
    (clash : s.module.declaresField t.definitionName (c.trackingField t).name = true) :
    trackHandles c target s = .error (.trackingFieldExists t.definitionName)
      { s with log := s.log ++ exclusions c target t } := by
  have plan_run := requirePlan_run c t s
  rw [planned] at plan_run
  have stop := Module.addTrackingField_eq s.module c t
  rw [if_pos clash] at stop
  refine (bind_ok (typeNamed_run known)).trans ((bind_ok plan_run).trans ?_)
  refine (bind_ok (forM_say_run _ _ s)).trans ((bind_ok rfl).trans ?_)
  exact bind_error (by rw [stop]; rfl)

theorem trackHandles_woven (known : s.module.findType? target.typeName = some t)
    (planned : requiredPlan c t s.module = .ok plan)
    (free : s.module.declaresField t.definitionName (c.trackingField t).name = false)
    (fresh : s.entry = target.entry) : trackHandles c target s = .ok ()
      { s with
        module := s.module.trackTarget c target t plan
        log := s.log ++ exclusions c target t
        entry := target.trackedEntry c s.module } := by
  have plan_run := requirePlan_run c t s
  rw [planned] at plan_run
  have field := Module.addTrackingField_eq s.module c t
  rw [if_neg (by rw [free]; exact Bool.false_ne_true)] at field
  let m₁ := s.module.withField t.definitionName (c.trackingField t)
  let constructed := m₁.instrumentConstructors target.typeName (t.fieldRef (c.trackingField t))
    c.collaborators.containerConstructor
  let s₁ : Session :=
    { s with
      module := constructed.1
      log := s.log ++ exclusions c target t
      entry :=
        { s.entry with state := .constructorsInstrumented, constructors := constructed.2 } }
  have registered := registerScope_run c (t.fieldRef (c.trackingField t))
    (Module.nodup_keys_methods c.markers target t) s₁
  have count : ((target.methods c.markers t).map Prod.fst).map (s₁.module.callCount c) =
      ((target.methods c.markers t).map Prod.fst).map (s.module.callCount c) := by
    exact List.map_congr_left fun key _ =>
      (Module.callCount_instrumentConstructors m₁ target.typeName _ _ key).trans
        (Module.callCount_withField s.module _ _ key)
  rw [count, ← Module.length_sites known] at registered
  let s₂ : Session :=
    { s₁ with
      module := s.module.instrumented c target t
      entry :=
        { s₁.entry with
          state := .callSitesRewritten
          registrations := s₁.entry.registrations + (target.sites c s.module).length } }
  obtain ⟨t₂, known₂, _⟩ :=
    Module.findType?_of_shapes (Module.shapes_instrumented c target t s.module) known
  have ensured := ensureTeardown_run (s := s₂) known₂ plan
    (show TargetState.callSitesRewritten.stage < TargetState.teardownEnsured.stage by decide)
  have fits : plan.Fits s₂.module c.disposal target.typeName := fits_instrumented known planned
  obtain ⟨own, exit, found, final⟩ := Module.finalExit?_ensured fits known₂
  obtain ⟨handles, appended⟩ := Module.appendRelease_eq .ldthis
    [.ldfld (t.fieldRef (c.trackingField t)), .callvirt c.collaborators.containerRelease] found
    final
  have stage₀ : s.entry.state.stage < TargetState.fieldAdded.stage := by
    rw [fresh]
    exact Nat.zero_lt_one
  have constructors : constructed.2 = ((s.module.findType? target.typeName).map fun t =>
      t.methods.countP MethodDef.takesPrologue).getD 0 := by
    rw [known]
    exact Module.instrumentConstructors_withField_snd known _ _ _
  have done : { s₂.entry with state := .released } = target.trackedEntry c s.module := by
    show TargetReport.mk s.entry.typeName s.entry.family s.entry.wide .released
      (s.entry.registrations + (target.sites c s.module).length) constructed.2
      s.entry.propertiesReleased s.entry.skipReason = _
    rw [fresh, constructors, Target.trackedEntry, Target.entry, Nat.zero_add]
  refine (bind_ok (typeNamed_run known)).trans ((bind_ok plan_run).trans ?_)
  refine (bind_ok (forM_say_run _ _ s)).trans ((bind_ok rfl).trans ?_)
  refine (bind_ok (a := (m₁, t.fieldRef (c.trackingField t))) (by rw [field]; rfl)).trans ?_
  dsimp only
  refine (bind_ok rfl).trans ((bind_ok (advance_run ?_)).trans ?_)
  · exact stage₀
  refine (bind_ok rfl).trans ((bind_ok rfl).trans ?_)
  refine (bind_ok (advance_run ?_)).trans ?_
  · exact Nat.lt_add_one 1
  refine (bind_ok registered).trans ((bind_ok (advance_run ?_)).trans ?_)
  · exact Nat.lt_add_one 2
  refine (bind_ok ensured).trans ((bind_ok rfl).trans ?_)
  refine (bind_ok (a := (_, handles)) (by
    show orFail (Module.appendRelease _ _ (.ldthis :: _)) _ = _
    rw [appended]
    rfl)).trans ?_
  dsimp only
  refine (bind_ok rfl).trans ((advance_run ?_).trans ?_)
  · exact Nat.lt_add_one 4
  · rw [← done]
    rfl

theorem releaseProperties_eq {m : Module} {teardown : MethodKey} {own : MethodDef} {exit : Handle}
    (getters : List MethodRef) (contractRelease : MethodRef)
    (found : m.findMethod? teardown = some own) (final : own.finalExit? = some exit) :
    m.releaseProperties teardown getters contractRelease = .ok (getters.foldl (fun m getter =>
      m.releaseIn teardown (releaseProperty getter contractRelease)) m) := by
  induction getters generalizing m own with
  | nil => rfl
  | cons getter rest ih =>
    obtain ⟨handles, appended⟩ := Module.appendRelease_eq .ldthis
      [.call getter, .callvirt contractRelease] found final
    obtain ⟨own', found', same⟩ :=
      (Module.keeps_releaseIn m teardown (releaseProperty getter contractRelease)).method found
    have first : (m.appendRelease teardown (releaseProperty getter contractRelease)).map Prod.fst =
        .ok (m.releaseIn teardown (releaseProperty getter contractRelease)) := by
      rw [releaseProperty, appended]
      rfl
    rw [Module.releaseProperties, List.foldlM_cons, first]
    exact ih found' ((MethodDef.finalExit?_of_outline same).trans final)

theorem releaseCommands_refused (capability : TypeRef) {e : TargetError}
    (known : s.module.findType? target.typeName = some t)
    (refused : requiredPlan c t s.module = .error e) :
    releaseCommands c capability target s = .error (.target e) s := by
  have stop := requirePlan_run c t s
  rw [refused] at stop
  exact (bind_ok (typeNamed_run known)).trans (bind_error stop)

theorem releaseCommands_woven (capability : TypeRef)
    (known : s.module.findType? target.typeName = some t)
    (planned : requiredPlan c t s.module = .ok plan) (fresh : s.entry = target.entry) :
    releaseCommands c capability target s = .ok ()
      { s with
        module := s.module.releaseTarget c (releasableGetters c capability s.module target t)
          target plan
        entry := target.releasedEntry (releasableGetters c capability s.module target t) } := by
  have plan_run := requirePlan_run c t s
  rw [planned] at plan_run
  have stage : s.entry.state.stage < TargetState.teardownEnsured.stage := by
    rw [fresh]
    exact Nat.zero_lt_succ 3
  have ensured := ensureTeardown_run known plan stage
  obtain ⟨own, exit, found, final⟩ :=
    Module.finalExit?_ensured (fits_of_requiredPlan known planned) known
  have released := releaseProperties_eq (releasableGetters c capability s.module target t)
    c.collaborators.contractRelease found final
  refine (bind_ok (typeNamed_run known)).trans ((bind_ok plan_run).trans ?_)
  refine (bind_ok rfl).trans ((bind_ok ensured).trans ((bind_ok rfl).trans ?_))
  refine (bind_ok (by rw [released]; rfl)).trans ?_
  refine (bind_ok rfl).trans ((bind_ok rfl).trans ((advance_run ?_).trans ?_))
  · exact Nat.lt_add_one 4
  · rw [Target.releasedEntry, ← fresh]
    rfl

/-! ## The entry of a target -/

/-- The session with a new entry for a target. -/
def begun (target : Target) (s : Session) : Session :=
  { s with
    log := s.log ++ [{ level := .info, text := "Weaving target: " ++ target.typeName }]
    entry := target.entry }

/-- No error in a log says that a type has its tracking field already. -/
def Quiet (log : Log) : Prop :=
  ∀ msg ∈ log, msg.level = .error →
    ∀ typeName, msg.text ≠ (WeaveError.trackingFieldExists typeName).message

theorem Quiet.append {log log' : Log} (first : Quiet log) (second : Quiet log') :
    Quiet (log ++ log') := by
  intro msg listed
  obtain listed | listed := List.mem_append.1 listed
  · exact first msg listed
  · exact second msg listed

theorem quiet_info (text : String) : Quiet [{ level := .info, text }] := by
  intro msg listed error
  rw [List.mem_singleton.1 listed] at error
  cases error

/-- Texts whose beginnings differ at a place differ. -/
theorem append_ne_append {a b : String} (k : Nat) {x y : Char} (first : a.toList[k]? = some x)
    (second : b.toList[k]? = some y) (other : x ≠ y) (c d : String) : a ++ c ≠ b ++ d := by
  intro same
  have char (a c : String) (x : Char) (here : a.toList[k]? = some x) :
      (a ++ c).toList[k]? = some x := by
    obtain ⟨inside, _⟩ := List.getElem?_eq_some_iff.1 here
    rw [String.toList_append, List.getElem?_append_left inside, here]
  have equal := char a c x first
  rw [same, char b d y second] at equal
  exact other (Option.some.inj equal).symm

theorem quiet_exclusions (c : WeaveContext) (target : Target) (t : TypeDef) :
    Quiet (exclusions c target t) := by
  intro msg listed _ typeName
  obtain ⟨⟨key, d⟩, _, rfl⟩ := List.mem_map.1 listed
  show ("Marked method " ++ t.qualifiedName d) ++ _ ≠ ("Type '" ++ typeName) ++ _
  rw [String.append_assoc, String.append_assoc]
  exact append_ne_append 0 (x := 'M') (y := 'T') (by decide) (by decide) (by decide) _ _

theorem quiet_targetError (e : TargetError) : Quiet [{ level := .error, text := e.message }] := by
  intro msg listed _ typeName
  rw [List.mem_singleton.1 listed, WeaveError.message, String.append_assoc]
  dsimp only
  cases e with
  | notDisposable name =>
    show ("Target class " ++ name) ++ _ ≠ _
    rw [String.append_assoc]
    exact append_ne_append 1 (x := 'a') (y := 'y') (by decide) (by decide) (by decide) _ _
  | unsupportedGenericSynthesis name method =>
    show ("Automatically generating a " ++ method) ++ _ ++ _ ++ _ ++ _ ++ _ ++ _ ≠ _
    simp only [String.append_assoc]
    exact append_ne_append 0 (x := 'A') (y := 'T') (by decide) (by decide) (by decide) _ _
  | missingFinalExit method =>
    show ("Teardown method '" ++ method) ++ _ ≠ _
    rw [String.append_assoc]
    exact append_ne_append 1 (x := 'e') (y := 'y') (by decide) (by decide) (by decide) _ _
  | finalTeardown method =>
    show ("Teardown method '" ++ method) ++ _ ≠ _
    rw [String.append_assoc]
    exact append_ne_append 1 (x := 'e') (y := 'y') (by decide) (by decide) (by decide) _ _

section WeaveTarget

variable {weave : Target → Weaving Unit}

theorem weaveTarget_woven {s' : Session} (done : weave target (begun target s) = .ok () s') :
    ∃ s'', weaveTarget weave target s = .ok () s'' ∧ s''.module = s'.module ∧
      s''.report = s'.report.push s'.entry ∧ s''.log = s'.log ++
        [{ level := .info, text := "Completed weaving target: " ++ target.typeName }] := by
  refine ⟨{ s' with
    log := s'.log ++
      [{ level := .info, text := "Completed weaving target: " ++ target.typeName }]
    report := s'.report.push s'.entry }, ?_, rfl, rfl, rfl⟩
  refine (bind_ok rfl).trans ((bind_ok rfl).trans ((bind_ok (a := ()) (u := { s' with
    log := s'.log ++
      [{ level := .info, text := "Completed weaving target: " ++ target.typeName }] }) ?_).trans rfl))
  have body : (weave target >>= fun _ =>
      say .info ("Completed weaving target: " ++ target.typeName)) (begun target s) = _ :=
    bind_ok done
  show EStateM.tryCatch _ _ (begun target s) = _
  rw [EStateM.tryCatch, body]
  rfl

theorem weaveTarget_refused {e : TargetError}
    (failed : weave target (begun target s) = .error (.target e) (begun target s)) :
    ∃ s', weaveTarget weave target s = .ok () s' ∧ s'.module = s.module ∧
      s'.report = s.report.push ((begun target s).entry.skip e.message) ∧
      s'.log = (begun target s).log ++ [{ level := .error, text := e.message }] := by
  refine ⟨{ begun target s with
    log := (begun target s).log ++ [{ level := .error, text := e.message }]
    entry := (begun target s).entry.skip e.message
    report := s.report.push ((begun target s).entry.skip e.message) }, ?_, rfl, rfl, rfl⟩
  refine (bind_ok rfl).trans ((bind_ok rfl).trans ((bind_ok (a := ()) (u := { begun target s with
    log := (begun target s).log ++ [{ level := .error, text := e.message }]
    entry := (begun target s).entry.skip e.message }) ?_).trans rfl))
  have body : (weave target >>= fun _ =>
      say .info ("Completed weaving target: " ++ target.typeName)) (begun target s) =
        .error (.target e) (begun target s) := bind_error failed
  show EStateM.tryCatch _ _ (begun target s) = _
  rw [EStateM.tryCatch, body]
  rfl

theorem weaveTarget_clash {name : String} {s' : Session}
    (failed : weave target (begun target s) = .error (.trackingFieldExists name) s') :
    weaveTarget weave target s = .error (.trackingFieldExists name) s' := by
  refine (bind_ok rfl).trans ((bind_ok rfl).trans (bind_error ?_))
  have body : (weave target >>= fun _ =>
      say .info ("Completed weaving target: " ++ target.typeName)) (begun target s) =
        .error (.trackingFieldExists name) s' := bind_error failed
  show EStateM.tryCatch _ _ (begun target s) = _
  rw [EStateM.tryCatch, body]
  rfl

end WeaveTarget

/-! ## The passes -/

/-- What the handle pass makes of a module, target by target, and the entries that it reports; it
may end with an error. -/
inductive TrackPass (c : WeaveContext) :
    List Target → Module → List TargetReport → Option WeaveError → Module → Prop where
  | done {m} : TrackPass c [] m [] none m
  | refused {target rest m t e entries r m'} : m.findType? target.typeName = some t →
      requiredPlan c t m = .error e → TrackPass c rest m entries r m' →
      TrackPass c (target :: rest) m (target.refusal e :: entries) r m'
  | woven {target rest m t plan entries r m'} : m.findType? target.typeName = some t →
      requiredPlan c t m = .ok plan →
      m.declaresField t.definitionName (c.trackingField t).name = false →
      TrackPass c rest (m.trackTarget c target t plan) entries r m' →
      TrackPass c (target :: rest) m (target.trackedEntry c m :: entries) r m'
  | clash {target rest m t plan} : m.findType? target.typeName = some t →
      requiredPlan c t m = .ok plan →
      m.declaresField t.definitionName (c.trackingField t).name = true →
      TrackPass c (target :: rest) m [] (some (.trackingFieldExists t.definitionName)) m

/-- The handle pass weaves the target among others, and comes to its end. -/
inductive Weaves (c : WeaveContext) (target : Target) : List Target → Module → Module → Prop where
  | refused {other rest m t e m'} : m.findType? other.typeName = some t →
      requiredPlan c t m = .error e → Weaves c target rest m m' →
      Weaves c target (other :: rest) m m'
  | before {other rest m t plan m'} : m.findType? other.typeName = some t →
      requiredPlan c t m = .ok plan →
      Weaves c target rest (m.trackTarget c other t plan) m' →
      Weaves c target (other :: rest) m m'
  | here {rest m t plan entries m'} : m.findType? target.typeName = some t →
      requiredPlan c t m = .ok plan →
      TrackPass c rest (m.trackTarget c target t plan) entries none m' →
      Weaves c target (target :: rest) m m'

/-- What the command pass makes of a module, target by target, and the entries that it reports. -/
inductive ReleasePass (c : WeaveContext) (capability : TypeRef) :
    List Target → Module → List TargetReport → Module → Prop where
  | done {m} : ReleasePass c capability [] m [] m
  | refused {target rest m t e entries m'} : m.findType? target.typeName = some t →
      requiredPlan c t m = .error e → ReleasePass c capability rest m entries m' →
      ReleasePass c capability (target :: rest) m (target.refusal e :: entries) m'
  | woven {target rest m t plan entries m'} : m.findType? target.typeName = some t →
      requiredPlan c t m = .ok plan →
      ReleasePass c capability rest
        (m.releaseTarget c (releasableGetters c capability m target t) target plan) entries m' →
      ReleasePass c capability (target :: rest) m
        (target.releasedEntry (releasableGetters c capability m target t) :: entries) m'

/-- A target that the handle pass reports released is one that it weaves. -/
theorem TrackPass.weaves {m m' : Module} {targets : List Target} {entries : List TargetReport}
    {r : Option WeaveError} (pass : TrackPass c targets m entries r m') (ended : r = none)
    {entry : TargetReport} (listed : entry ∈ entries) (released : entry.isReleased = true) :
    entry.target ∈ targets ∧ Weaves c entry.target targets m m' := by
  induction pass with
  | done => cases listed
  | refused known refused _ ih =>
    obtain same | later := List.mem_cons.1 listed
    · rw [same] at released
      cases released
    · obtain ⟨among, weaves⟩ := ih ended later
      exact ⟨List.mem_cons_of_mem _ among, .refused known refused weaves⟩
  | woven known planned _ pass ih =>
    obtain same | later := List.mem_cons.1 listed
    · rw [same]
      subst ended
      exact ⟨List.mem_cons_self, .here known planned pass⟩
    · obtain ⟨among, weaves⟩ := ih ended later
      exact ⟨List.mem_cons_of_mem _ among, .before known planned weaves⟩
  | clash => cases listed

/-- The entries of the command pass are about its targets. -/
theorem ReleasePass.mem {capability : TypeRef} {m m' : Module} {targets : List Target}
    {entries : List TargetReport} (pass : ReleasePass c capability targets m entries m')
    {entry : TargetReport} (listed : entry ∈ entries) : entry.target ∈ targets := by
  induction pass with
  | done => cases listed
  | refused _ _ _ ih | woven _ _ _ ih =>
    obtain same | later := List.mem_cons.1 listed
    · rw [same]
      exact List.mem_cons_self
    · exact List.mem_cons_of_mem _ (ih later)

/-- The session after a pass, as far as the module, the report and the messages go. -/
structure PassEnd (s : Session) (m : Module) (entries : List TargetReport) (s' : Session) :
    Prop where
  module : s'.module = m
  report : s'.report.targets = s.report.targets ++ entries
  log : ∃ more, s'.log = s.log ++ more ∧ Quiet more

/-- A pass that goes on after the first target. -/
theorem PassEnd.step {s s₁ s' : Session} {m : Module} {entry : TargetReport}
    {entries : List TargetReport} {first : Log} (ended : PassEnd s₁ m entries s')
    (report : s₁.report = s.report.push entry) (log : s₁.log = s.log ++ first)
    (quiet : Quiet first) : PassEnd s m (entry :: entries) s' where
  module := ended.module
  report := by
    rw [ended.report, report, WeaveReport.push, List.append_assoc, List.singleton_append]
  log := by
    obtain ⟨more, same, quiet'⟩ := ended.log
    exact ⟨first ++ more, by rw [same, log, List.append_assoc], quiet.append quiet'⟩

/-- A pass whose first message came before its start. -/
theorem PassEnd.after {s s' : Session} {m : Module} {entries : List TargetReport} {first : Log}
    (ended : PassEnd { s with log := s.log ++ first } m entries s') (quiet : Quiet first) :
    PassEnd s m entries s' where
  module := ended.module
  report := ended.report
  log := by
    obtain ⟨more, same, quiet'⟩ := ended.log
    exact ⟨first ++ more, by rw [same, List.append_assoc], quiet.append quiet'⟩

theorem known_of_shapes {m m' : Module} {targets : List Target} (same : m'.shapes = m.shapes)
    (known : ∀ target ∈ targets, ∃ t, m.findType? target.typeName = some t) :
    ∀ target ∈ targets, ∃ t, m'.findType? target.typeName = some t := by
  intro target listed
  obtain ⟨t, found⟩ := known target listed
  obtain ⟨t', found', _⟩ := Module.findType?_of_shapes same found
  exact ⟨t', found'⟩

theorem trackPass_run (c : WeaveContext) {targets : List Target} {s : Session}
    (known : ∀ target ∈ targets, ∃ t, s.module.findType? target.typeName = some t) :
    ∃ entries r m s', TrackPass c targets s.module entries r m ∧ PassEnd s m entries s' ∧
      targets.forM (weaveTarget (trackHandles c)) s = match r with
        | none => .ok () s'
        | some e => .error e s' := by
  induction targets generalizing s with
  | nil =>
    exact ⟨[], none, s.module, s, .done, ⟨rfl, by simp, [], by simp, fun _ none =>
      absurd none (by simp)⟩, rfl⟩
  | cons target rest ih =>
    obtain ⟨t, found⟩ := known target List.mem_cons_self
    have known' := fun target' listed => known target' (List.mem_cons_of_mem target listed)
    have opening := quiet_info ("Weaving target: " ++ target.typeName)
    cases planned : requiredPlan c t s.module with
    | error e =>
      obtain ⟨s₁, run, module, report, log⟩ :=
        weaveTarget_refused (trackHandles_refused (s := begun target s) found planned)
      obtain ⟨entries, r, m, s', pass, ended, rest_run⟩ :=
        ih (s := s₁) (by rw [module]; exact known')
      rw [module] at pass
      refine ⟨_, r, m, s', .refused found planned pass, ended.step (s := s) report ?_
        (opening.append (quiet_targetError e)), (bind_ok run).trans rest_run⟩
      rw [log, begun, List.append_assoc]
    | ok plan =>
      cases clash : s.module.declaresField t.definitionName (c.trackingField t).name with
      | true =>
        have run := weaveTarget_clash (trackHandles_clash (s := begun target s) found planned clash)
        let s₁ : Session :=
          { begun target s with log := (begun target s).log ++ exclusions c target t }
        refine ⟨[], some _, s.module, s₁, .clash found planned clash,
          ⟨rfl, (List.append_nil _).symm, _ ++ exclusions c target t, ?_,
            opening.append (quiet_exclusions c target t)⟩, bind_error run⟩
        exact List.append_assoc _ _ _
      | false =>
        have woven := trackHandles_woven (s := begun target s) found planned clash rfl
        obtain ⟨s₁, run, module, report, log⟩ := weaveTarget_woven woven
        have shapes := Module.shapes_trackTarget c target t plan s.module
        obtain ⟨entries, r, m, s', pass, ended, rest_run⟩ := ih (s := s₁) (by
          rw [module]
          exact known_of_shapes shapes known')
        rw [module] at pass
        refine ⟨_, r, m, s', .woven found planned clash pass, ended.step (s := s) report ?_
          ((opening.append (quiet_exclusions c target t)).append
            (quiet_info ("Completed weaving target: " ++ target.typeName))),
          (bind_ok run).trans rest_run⟩
        rw [log, begun, List.append_assoc, List.append_assoc, List.append_assoc]

theorem releasePass_run (c : WeaveContext) (capability : TypeRef) {targets : List Target}
    {s : Session} (known : ∀ target ∈ targets, ∃ t, s.module.findType? target.typeName = some t) :
    ∃ entries m s', ReleasePass c capability targets s.module entries m ∧
      PassEnd s m entries s' ∧
      targets.forM (weaveTarget (releaseCommands c capability)) s = .ok () s' := by
  induction targets generalizing s with
  | nil =>
    exact ⟨[], s.module, s, .done, ⟨rfl, by simp, [], by simp, fun _ none =>
      absurd none (by simp)⟩, rfl⟩
  | cons target rest ih =>
    obtain ⟨t, found⟩ := known target List.mem_cons_self
    have known' := fun target' listed => known target' (List.mem_cons_of_mem target listed)
    have opening := quiet_info ("Weaving target: " ++ target.typeName)
    cases planned : requiredPlan c t s.module with
    | error e =>
      obtain ⟨s₁, run, module, report, log⟩ := weaveTarget_refused
        (releaseCommands_refused (s := begun target s) capability found planned)
      obtain ⟨entries, m, s', pass, ended, rest_run⟩ :=
        ih (s := s₁) (by rw [module]; exact known')
      rw [module] at pass
      refine ⟨_, m, s', .refused found planned pass, ended.step (s := s) report ?_
        (opening.append (quiet_targetError e)), (bind_ok run).trans rest_run⟩
      rw [log, begun, List.append_assoc]
    | ok plan =>
      have woven := releaseCommands_woven (s := begun target s) capability found planned rfl
      obtain ⟨s₁, run, module, report, log⟩ := weaveTarget_woven woven
      have shapes := Module.shapes_releaseTarget c
        (releasableGetters c capability s.module target t) target plan s.module
      obtain ⟨entries, m, s', pass, ended, rest_run⟩ := ih (s := s₁) (by
        rw [module]
        exact known_of_shapes shapes known')
      rw [module] at pass
      refine ⟨_, m, s', .woven found planned pass, ended.step (s := s) report ?_
        (opening.append (quiet_info ("Completed weaving target: " ++ target.typeName))),
        (bind_ok run).trans rest_run⟩
      rw [log, begun, List.append_assoc]

theorem runPass_run (family : Family) (weave : Target → Weaving Unit) (c : WeaveContext)
    (s : Session) : ∃ first, runPass c family weave s =
      (Target.select s.module c.markers family).forM (weaveTarget weave)
        { s with log := s.log ++ first } ∧ Quiet first :=
  ⟨_, (bind_ok rfl).trans (bind_ok rfl), quiet_info _⟩

/-- A target of a family names a type of the module. -/
theorem of_mem_select {m : Module} {table : MarkerTable} {family : Family}
    (listed : target ∈ Target.select m table family) :
    target.family = family ∧ ∃ t, m.findType? target.typeName = some t := by
  obtain ⟨t, own, selected⟩ := List.mem_filterMap.1 listed
  have declared : t ∈ m.types := (List.mem_filter.1 own).1
  unfold Target.ofType? at selected
  dsimp only at selected
  split at selected
  · cases selected
    exact ⟨rfl, t, Module.findType?_of_mem declared⟩
  · cases selected

theorem known_of_select (m : Module) (table : MarkerTable) (family : Family) :
    ∀ target ∈ Target.select m table family, ∃ t, m.findType? target.typeName = some t :=
  fun _ listed => (of_mem_select listed).2

/-! ## A whole run -/

/-- The module whose targets have the teardowns that they need. -/
def prepared (c : WeaveContext) (capability : Option TypeRef) (m : Module) : Module :=
  (prepareTeardowns c.disposal (allTargets m c.markers capability) m).1

/-- The module that the handle pass starts from. -/
def start (c : WeaveContext) (m : Module) : Module :=
  (prepareTeardowns c.disposal (Target.select m c.markers .trackHandles
    ++ Target.select m c.markers .releaseCommands) m).1

theorem select_eq_nil {m : Module} {table : MarkerTable} {family : Family}
    (none : table.hasFamily family = false) : Target.select m table family = [] := by
  have unmarked (carrier : Carrier) : table.contains carrier family = false := by
    rw [MarkerTable.contains, Bool.eq_false_iff]
    intro listed
    have present := List.any_eq_false.1 none _ (List.contains_iff_mem.1 listed)
    exact present (decide_eq_true rfl)
  refine List.filterMap_eq_nil_iff.2 fun t _ => ?_
  have members : table.marksMember family t = false := by
    unfold MarkerTable.marksMember
    split
    · exact List.any_eq_false.2 fun (key, _) _ => Bool.eq_false_iff.1 (unmarked (.method key))
    · exact List.any_eq_false.2 fun (key, _) _ => Bool.eq_false_iff.1 (unmarked (.property key))
  unfold Target.ofType?
  dsimp only
  rw [unmarked, members]
  rfl

theorem prepared_eq_start {m : Module} {capability : Option TypeRef}
    (present : capability.isSome = true ↔ c.markers.hasFamily .releaseCommands = true) :
    prepared c capability m = start c m := by
  unfold prepared start allTargets
  cases capability with
  | some _ => rfl
  | none =>
    have none : c.markers.hasFamily .releaseCommands = false := by
      rw [Bool.eq_false_iff]
      exact fun marked => by cases present.2 marked
    rw [select_eq_nil none]
    rfl

/-- The end of a run whose collaborators are there. -/
inductive Finished (c : WeaveContext) (capability : Option TypeRef) (m : Module) :
    WeaveOutcome → Prop where
  | clash {entries e m' log} :
      TrackPass c (Target.select (prepared c capability m) c.markers .trackHandles)
        (prepared c capability m) entries (some e) m' → Quiet log →
      Finished c capability m ⟨m', log, .error e⟩
  | woven {entries entries' m' m'' log report} :
      TrackPass c (Target.select (prepared c capability m) c.markers .trackHandles)
        (prepared c capability m) entries none m' →
      report.targets = entries ++ entries' ∧ (capability = none → entries' = []) →
      (capability = none → m'' = m') →
      (∀ capability', capability = some capability' →
        Collaborators.resolveCapability m c.config = .ok capability' ∧
          ReleasePass c capability' (Target.select m' c.markers .releaseCommands) m' entries'
            m'') →
      Finished c capability m ⟨m'', log, .ok report⟩

/-- An entry of a run is one of the handle pass, or one of the command pass if there is one. -/
theorem mem_entries_woven {capability : Option TypeRef} {m : Module} {log : Log}
    {report : WeaveReport} {entries entries' : List TargetReport} {entry : TargetReport}
    (reports : report.targets = entries ++ entries' ∧ (capability = none → entries' = []))
    (reported : entry ∈ WeaveOutcome.entries ⟨m, log, .ok report⟩) :
    entry ∈ entries ∨ ∃ cap, capability = some cap ∧ entry ∈ entries' := by
  obtain ⟨together, alone⟩ := reports
  have listed : entry ∈ entries ++ entries' := together ▸ reported
  obtain tracked | commanded := List.mem_append.1 listed
  · exact .inl tracked
  · cases capability with
    | none =>
      rw [alone rfl] at commanded
      cases commanded
    | some cap => exact .inr ⟨cap, rfl, commanded⟩

theorem bindCollaborator_run {α : Type} (result : Except BindingError α) (s : Session) :
    bindCollaborator result s = match result with
      | .ok a => .ok a s
      | .error e => .error (.binding e)
        { s with log := s.log ++ [{ level := .error, text := (WeaveError.binding e).message }] } := by
  cases result <;> rfl

theorem resolveCapability_run (config : Config) (markers : MarkerTable) (s : Session) :
    (∃ capability, resolveCapability config markers s = .ok capability s ∧
        (capability.isSome = true ↔ markers.hasFamily .releaseCommands = true) ∧
        ∀ capability', capability = some capability' →
          Collaborators.resolveCapability s.module config = .ok capability') ∨
      ∃ e, resolveCapability config markers s = .error (.binding e)
          { s with
            log := s.log ++ [{ level := .error, text := (WeaveError.binding e).message }] } ∧
        markers.hasFamily .releaseCommands = true ∧
        Collaborators.resolveCapability s.module config = .error e := by
  unfold resolveCapability
  by_cases present : markers.hasFamily .releaseCommands = true
  · rw [if_pos present]
    have bound := bindCollaborator_run (Collaborators.resolveCapability s.module config) s
    cases found : Collaborators.resolveCapability s.module config with
    | ok capability =>
      rw [found] at bound
      refine .inl ⟨some capability, ?_, by simp [present], fun _ same =>
        congrArg Except.ok (Option.some.inj same)⟩
      refine (bind_ok rfl).trans ((bind_ok ?_).trans rfl)
      rw [found]
      exact bound
    | error e =>
      rw [found] at bound
      refine .inr ⟨e, (bind_ok rfl).trans (bind_error ?_), present, rfl⟩
      rw [found]
      exact bound
  · rw [if_neg present]
    exact .inl ⟨none, rfl, by simp [present], fun _ impossible => by cases impossible⟩

/-- What is left of a run once its collaborators are bound. -/
def passes (c : WeaveContext) (capability : Option TypeRef) (m : Module) :
    Weaving WeaveReport := do
  setModule (prepared c capability m)
  runPass c .trackHandles (trackHandles c)
  match capability with
  | some capability => runPass c .releaseCommands (releaseCommands c capability)
  | none => pure ()
  let s ← get
  say .info (closingMessage s.report s.module.name)
  return s.report

def outcomeOf : EStateM.Result WeaveError Session WeaveReport → WeaveOutcome
  | .ok report s => ⟨s.module, s.log, .ok report⟩
  | .error e s => ⟨s.module, s.log, .error e⟩

theorem passes_run (c : WeaveContext) (capability : Option TypeRef) (s : Session)
    (silent : s.log = []) (blank : s.report.targets = [])
    (bound : ∀ capability', capability = some capability' →
      Collaborators.resolveCapability s.module c.config = .ok capability') :
    ∃ r, passes c capability s.module s = r ∧ Finished c capability s.module (outcomeOf r) := by
  let s₀ : Session := { s with module := prepared c capability s.module }
  have opening : setModule (prepared c capability s.module) s = .ok () s₀ := rfl
  obtain ⟨first, start, quiet⟩ := runPass_run .trackHandles (trackHandles c) c s₀
  obtain ⟨entries, r, m', s₁, pass, ended, run⟩ :=
    trackPass_run c (s := { s₀ with log := s₀.log ++ first })
      (known_of_select s₀.module c.markers .trackHandles)
  have ended' : PassEnd s₀ m' entries s₁ := ended.after quiet
  have tracked := start.trans run
  have reported : s₁.report.targets = entries := by
    rw [ended'.report, show s₀.report.targets = [] from blank, List.nil_append]
  cases r with
  | some e =>
    refine ⟨.error e s₁, (bind_ok opening).trans (bind_error tracked), ?_⟩
    obtain ⟨more, log, quiet'⟩ := ended'.log
    rw [outcomeOf, ended'.module]
    refine .clash pass ?_
    rw [log]
    exact silent ▸ quiet'
  | none =>
    cases capability with
    | none =>
      let s₂ : Session :=
        { s₁ with log := s₁.log ++ [⟨.info, closingMessage s₁.report s₁.module.name, true⟩] }
      refine ⟨.ok s₁.report s₂, (bind_ok opening).trans ((bind_ok tracked).trans rfl), ?_⟩
      rw [outcomeOf, show s₂.module = m' from ended'.module]
      exact .woven pass ⟨by rw [reported, List.append_nil], fun _ => rfl⟩ (fun _ => rfl)
        fun _ impossible => by cases impossible
    | some capability =>
      obtain ⟨first', start', quiet'⟩ := runPass_run .releaseCommands
        (releaseCommands c capability) c s₁
      obtain ⟨entries', m'', s₂, pass', ended'', run'⟩ := releasePass_run c capability
        (s := { s₁ with log := s₁.log ++ first' })
        (known_of_select s₁.module c.markers .releaseCommands)
      let s₃ : Session :=
        { s₂ with log := s₂.log ++ [⟨.info, closingMessage s₂.report s₂.module.name, true⟩] }
      refine ⟨.ok s₂.report s₃, (bind_ok opening).trans ((bind_ok tracked).trans
        ((bind_ok (start'.trans run')).trans rfl)), ?_⟩
      rw [outcomeOf, show s₃.module = m'' from ended''.module]
      have reported' : s₂.report.targets = entries ++ entries' := by
        rw [ended''.report, reported]
      refine .woven pass ⟨reported', fun impossible => by cases impossible⟩
        (fun impossible => by cases impossible) fun _ same => ?_
      cases same
      rw [← ended'.module]
      exact ⟨bound capability rfl, pass'⟩

theorem weave_eq (m : Module) (config : Config) :
    m.weave config = outcomeOf (execute config { module := m }) := by
  rw [Module.weave, run_eq]
  cases execute config { module := m } <;> rfl

theorem execute_missing {m : Module} {config : Config} {e : BindingError}
    (missing : Collaborators.resolve m config = .error e) :
    execute config { module := m } = .error (.binding e)
      { module := m, log := [{ level := .error, text := (WeaveError.binding e).message }] } := by
  have bound := bindCollaborator_run (Collaborators.resolve m config) { module := m }
  rw [missing] at bound
  unfold execute
  refine (bind_ok rfl).trans ((bind_ok rfl).trans (bind_error ?_))
  dsimp only
  rw [missing]
  exact bound

/-- With the collaborators at hand a run binds the capability and goes through the passes. -/
theorem execute_bound {m : Module} {config : Config} {collaborators : Collaborators}
    (found : Collaborators.resolve m config = .ok collaborators) :
    execute config { module := m } =
      (resolveCapability config (MarkerTable.collect m config.markers) >>= fun capability =>
        passes ⟨config, collaborators, MarkerTable.collect m config.markers⟩ capability m)
        { module := m } := by
  have bound := bindCollaborator_run (Collaborators.resolve m config) { module := m }
  rw [found] at bound
  unfold execute
  refine (bind_ok rfl).trans ((bind_ok rfl).trans ?_)
  dsimp only
  rw [found]
  refine (bind_ok bound).trans ?_
  obtain ⟨capability, resolved, _⟩ | ⟨e, missing, _⟩ :=
    resolveCapability_run config (MarkerTable.collect m config.markers) { module := m }
  · rw [bind_ok resolved, bind_ok resolved]
    exact (bind_ok rfl).trans ((bind_ok rfl).trans rfl)
  · rw [bind_error missing, bind_error missing]

/-- A run stops for want of a collaborator before anything changes, or it goes through the
passes. -/
theorem weave_cases (m : Module) (config : Config) :
    (∃ e, m.weave config =
        ⟨m, [{ level := .error, text := (WeaveError.binding e).message }], .error (.binding e)⟩) ∨
      ∃ collaborators capability,
        Collaborators.resolve m config = .ok collaborators ∧
        (capability.isSome = true ↔
          (MarkerTable.collect m config.markers).hasFamily .releaseCommands = true) ∧
        Finished ⟨config, collaborators, MarkerTable.collect m config.markers⟩ capability m
          (m.weave config) := by
  cases found : Collaborators.resolve m config with
  | error e =>
    refine .inl ⟨e, ?_⟩
    rw [weave_eq, execute_missing found]
    rfl
  | ok collaborators =>
    rw [weave_eq, execute_bound found]
    obtain ⟨capability, resolved, present, bound⟩ | ⟨e, missing, _⟩ :=
      resolveCapability_run config (MarkerTable.collect m config.markers) { module := m }
    · obtain ⟨r, run, finished⟩ := passes_run
        ⟨config, collaborators, MarkerTable.collect m config.markers⟩ capability { module := m }
        rfl rfl bound
      refine .inr ⟨collaborators, capability, rfl, present, ?_⟩
      rw [bind_ok resolved, run]
      exact finished
    · refine .inl ⟨e, ?_⟩
      rw [bind_error missing]
      rfl

end Weave

end ReleaseWeaver
