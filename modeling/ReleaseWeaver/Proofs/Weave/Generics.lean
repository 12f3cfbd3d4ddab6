import ReleaseWeaver.Proofs.Weave.Delegation

/-
  Generic parameters in woven code. A reference is in the scope of some parameters if it mentions
  no other; a module is well scoped if the references of each local type are in the scope of the
  type's own parameters. What a run emits are references to members of the target itself, to the
  collaborators, and, for an override, to the overridden teardown through the base reference of the
  link below its type. Main statement: where those links, the return types that are copied and the
  collaborators mention no parameter, a run leaves a well-scoped module well scoped, and its
  overrides mention no parameter at all.
-/

namespace ReleaseWeaver

/-! ## Scopes -/

namespace TypeRef

mutual

/-- The names of the generic parameters in a reference, at every depth. -/
def mentions : TypeRef → List String
  | .named _ _ _ args => mentionsAll args
  | .param name => [name]

def mentionsAll : List TypeRef → List String
  | [] => []
  | a :: as => mentions a ++ mentionsAll as

end

/-- The reference mentions none but these parameters. -/
def ScopedIn (names : List String) (r : TypeRef) : Prop := r.mentions ⊆ names

instance (names : List String) (r : TypeRef) : Decidable (r.ScopedIn names) :=
  inferInstanceAs (Decidable (r.mentions ⊆ names))

theorem ScopedIn.of_closed {r : TypeRef} (closed : r.ScopedIn []) (names : List String) :
    r.ScopedIn names := fun _ listed => absurd (closed listed) List.not_mem_nil

theorem mentionsAll_params (names : List String) :
    mentionsAll (names.map TypeRef.param) = names := by
  induction names with
  | nil => rfl
  | cons name rest ih =>
    rw [List.map_cons, mentionsAll, mentions, ih]
    rfl

end TypeRef

theorem TypeDef.generics_of_shape {t t' : TypeDef} (shape : t'.shape = t.shape) :
    t'.generics = t.generics := (TypeDef.mk.inj shape).2.2.2.2.2.1

theorem TypeDef.isLocal_of_shape {t t' : TypeDef} (shape : t'.shape = t.shape) :
    t'.isLocal = t.isLocal := by
  rw [show t'.isLocal = t'.shape.isLocal from rfl, shape]
  rfl

/-- From inside, a type is in the scope of its parameters. -/
theorem TypeDef.scopedIn_selfRef (t : TypeDef) : t.selfRef.ScopedIn t.generics := by
  show TypeRef.mentionsAll (t.generics.map TypeRef.param) ⊆ t.generics
  rw [TypeRef.mentionsAll_params]
  exact List.Subset.refl _

/-- The type whose member an instruction names. -/
def Instr.declaring? : Instr → Option TypeRef
  | .ldfld field | .stfld field => some field.declaring
  | .newobj method | .invoke method _ => some method.declaring
  | _ => none

def Instr.ScopedIn (names : List String) (i : Instr) : Prop :=
  ∀ r ∈ i.declaring?, r.ScopedIn names

instance (names : List String) (i : Instr) : Decidable (i.ScopedIn names) :=
  inferInstanceAs (Decidable (∀ r ∈ i.declaring?, r.ScopedIn names))

/-- The return type of a method and the types whose members its body names. -/
def MethodDef.ScopedIn (names : List String) (d : MethodDef) : Prop :=
  (∀ r ∈ d.returns, r.ScopedIn names) ∧ ∀ b ∈ d.body, ∀ i ∈ b.instrs, i.ScopedIn names

instance (names : List String) (d : MethodDef) : Decidable (d.ScopedIn names) :=
  inferInstanceAs (Decidable ((∀ r ∈ d.returns, r.ScopedIn names) ∧
    ∀ b ∈ d.body, ∀ i ∈ b.instrs, i.ScopedIn names))

namespace Module

/-- Each local type stays in the scope of its own parameters. -/
def WellScoped (m : Module) : Prop :=
  ∀ t ∈ m.types, t.isLocal = true →
    (∀ r ∈ t.base, r.ScopedIn t.generics) ∧ ∀ d ∈ t.methods, d.ScopedIn t.generics

instance (m : Module) : Decidable m.WellScoped :=
  inferInstanceAs (Decidable (∀ t ∈ m.types, t.isLocal = true →
    (∀ r ∈ t.base, r.ScopedIn t.generics) ∧ ∀ d ∈ t.methods, d.ScopedIn t.generics))

/-- What the override of a type is made of is seen without parameters: each base reference to a
type with a teardown in the end, on the way to the first type that had one, and what that teardown
returns. -/
def SeesClosed (m after : Module) (d : Disposal) (t : TypeDef) : Prop :=
  (∀ a ∈ (m.ancestors t).takeWhile (fun a => (a.ownTeardown? d).isNone), ∀ r ∈ a.base,
    ∀ b ∈ m.resolve? r, (after.declared? d b.definitionName).isSome = true → r.ScopedIn []) ∧
  ∀ x ∈ m.inheritedTeardown? d t, ∀ r ∈ x.2.returns, r.ScopedIn []

instance (m after : Module) (d : Disposal) (t : TypeDef) : Decidable (m.SeesClosed after d t) :=
  inferInstanceAs (Decidable ((∀ a ∈ (m.ancestors t).takeWhile (fun a => (a.ownTeardown? d).isNone),
    ∀ r ∈ a.base, ∀ b ∈ m.resolve? r,
      (after.declared? d b.definitionName).isSome = true → r.ScopedIn []) ∧
    ∀ x ∈ m.inheritedTeardown? d t, ∀ r ∈ x.2.returns, r.ScopedIn []))

/-- The getters of a local type are methods of its own. -/
def OwnsGetters (m : Module) : Prop :=
  ∀ t ∈ m.types, t.isLocal = true → ∀ p ∈ t.properties, ∀ key ∈ p.getter,
    key.owner = t.definitionName

instance (m : Module) : Decidable m.OwnsGetters :=
  inferInstanceAs (Decidable (∀ t ∈ m.types, t.isLocal = true → ∀ p ∈ t.properties,
    ∀ key ∈ p.getter, key.owner = t.definitionName))

end Module

/-- The members of the collaborators are named without parameters. -/
def Collaborators.Closed (c : Collaborators) : Prop :=
  ∀ method ∈ [c.contractRelease, c.containerConstructor, c.containerRelease, c.helper],
    method.declaring.ScopedIn []

instance (c : Collaborators) : Decidable c.Closed :=
  inferInstanceAs (Decidable (∀ method ∈
    [c.contractRelease, c.containerConstructor, c.containerRelease, c.helper],
    method.declaring.ScopedIn []))

/-! ## What goes in -/

section Insertions

variable {c : WeaveContext} {names : List String} {m : Module} {t : TypeDef} {key : MethodKey}
  {d : MethodDef}

theorem Instr.declaring?_redirect (i : Instr) (source goal : Handle) :
    (i.redirect source goal).declaring? = i.declaring? := by
  cases i <;> rfl

theorem MethodDef.ScopedIn.of_closed (closed : d.ScopedIn []) (names : List String) :
    d.ScopedIn names :=
  ⟨fun r returned => (closed.1 r returned).of_closed names,
    fun b body i listed r named => (closed.2 b body i listed r named).of_closed names⟩

/-- The instructions of a body with insertions name what the old ones or the inserted ones name. -/
theorem MethodDef.scopedIn_rewritten {e : Insertions} (straight : ∀ i ∈ e.last, i.target? = none)
    (inserted : ∀ i ∈ e.all, i.ScopedIn names) (inScope : d.ScopedIn names) :
    (d.rewritten c e).ScopedIn names := by
  refine ⟨inScope.1, fun b' body' i listed => ?_⟩
  obtain ⟨b, body, rfl⟩ := Option.map_eq_some_iff.1 body'
  rw [Body.instrs, Body.lines_rewritten c straight] at listed
  obtain ⟨l, inside, rfl⟩ := List.mem_map.1 listed
  obtain ⟨i, placed, same⟩ := Insertions.mem_applied inside
  have declaring : l.2.declaring? = i.declaring? := by
    obtain same | ⟨source, goal, same⟩ := same
    · rw [same]
    · rw [same, Instr.declaring?_redirect]
  intro r names
  rw [declaring] at names
  obtain new | old := placed
  · exact inserted i new r names
  · exact inScope.2 b body i (List.mem_map_of_mem old) r names

theorem MethodDef.scopedIn_openedIf (opens : Bool) (inScope : d.ScopedIn names) :
    (d.openedIf opens).ScopedIn names := inScope

/-- An override names the type that its call goes to, and returns what is returned there. -/
theorem MethodDef.scopedIn_overrideVia {declaring : TypeRef}
    (returns : ∀ r ∈ d.returns, r.ScopedIn names) (called : declaring.ScopedIn names) :
    (d.overrideVia declaring).ScopedIn names := by
  refine ⟨returns, fun b body i listed => ?_⟩
  cases body
  have calls : (Instr.call (d.refIn declaring)).ScopedIn names := fun r named => by
    cases named
    exact called
  have run : ∀ i ∈ [Instr.ldthis, .call (d.refIn declaring), .ret], i.ScopedIn names :=
    forall_mem_three nofun calls nofun
  exact run i listed

theorem Instr.scopedIn_of_declaring {i : Instr} {r : TypeRef} (names : i.declaring? = some r)
    {params : List String} (inScope : r.ScopedIn params) : i.ScopedIn params := by
  intro r' named
  rw [names] at named
  cases named
  exact inScope

/-- What goes into the methods of a type names its own members and the collaborators. -/
theorem WeaveContext.scopedIn_insertions {handles : Option Target} {getters : List MethodRef}
    (closed : c.collaborators.Closed)
    (own : ∀ getter ∈ getters, getter.declaring.ScopedIn t.generics) :
    ∀ i ∈ (c.insertions handles getters t key d).all, i.ScopedIn t.generics := by
  have collaborator {method : MethodRef} (listed : method ∈ [c.collaborators.contractRelease,
      c.collaborators.containerConstructor, c.collaborators.containerRelease,
      c.collaborators.helper]) : method.declaring.ScopedIn t.generics :=
    (closed method listed).of_closed _
  have this : Instr.ldthis.ScopedIn t.generics := nofun
  have loads : (Instr.ldfld (t.fieldRef (c.trackingField t))).ScopedIn t.generics :=
    Instr.scopedIn_of_declaring rfl t.scopedIn_selfRef
  exact forall_mem_insertions
    (forall_mem_three this (Instr.scopedIn_of_declaring rfl (collaborator (by simp)))
      (Instr.scopedIn_of_declaring rfl t.scopedIn_selfRef))
    (forall_mem_three this loads (Instr.scopedIn_of_declaring rfl (collaborator (by simp))))
    (forall_mem_three this loads (Instr.scopedIn_of_declaring rfl (collaborator (by simp))))
    fun getter read => forall_mem_three this
      (Instr.scopedIn_of_declaring rfl (own getter read))
      (Instr.scopedIn_of_declaring rfl (collaborator (by simp)))

end Insertions

/-! ## References to what is overridden -/

namespace Module

variable {m m' : Module} {d : Disposal} {name other : String}

/-- The link that reaches an ancestor first is the one below its first place in the chain. -/
theorem linkTo?_eq {ancestor : String} {chain : List TypeDef} {k : Nat} {a b : TypeDef}
    (here : chain[k]? = some a) (next : chain[k + 1]? = some b)
    (named : b.definitionName = ancestor) (linked : a.base.isSome = true)
    (first : ∀ j ≤ k, ∀ c, chain[j]? = some c → c.definitionName ≠ ancestor) :
    linkTo? ancestor chain = a.base := by
  induction k generalizing chain with
  | zero =>
    obtain ⟨rest, rfl⟩ := List.head?_eq_some_iff.1 (by rw [List.head?_eq_getElem?, here])
    obtain ⟨rest, rfl⟩ := List.head?_eq_some_iff.1
      (by rw [List.head?_eq_getElem?]; exact next)
    rw [linkTo?, if_pos ⟨named, linked⟩]
  | succ k ih =>
    cases chain with
    | nil => cases here
    | cons u rest =>
      cases rest with
      | nil => cases here
      | cons v rest =>
        have other : v.definitionName ≠ ancestor := first 1 (by omega) v rfl
        rw [linkTo?, if_neg fun both => other both.1]
        exact ih here next fun j bound => first (j + 1) (by omega)

/-- The reference to a type above is the base reference of the type below it. -/
theorem refAbove_eq {k : Nat} (there : m.above (k + 1) name = some other)
    (first : ∀ j ≤ k, m.above j name ≠ some other) :
    ∃ t a b ref, m.findType? name = some t ∧ (m.ancestors t)[k]? = some a ∧ a.base = some ref ∧
      m.resolve? ref = some b ∧ b.definitionName = other ∧ m.refAbove name other = ref := by
  obtain ⟨b, reached, named⟩ := Option.map_eq_some_iff.1 there
  obtain ⟨t, known, climbed⟩ := Option.bind_eq_some_iff.1 reached
  have climbed' := climbed
  rw [climb_add] at climbed
  obtain ⟨a, below, step⟩ := Option.bind_eq_some_iff.1 climbed
  obtain ⟨u, extended, same⟩ := Option.bind_eq_some_iff.1 step
  cases same
  obtain ⟨ref, declared, resolved⟩ := Option.bind_eq_some_iff.1 extended
  have apart (j : Nat) (bound : j ≤ k) (c : TypeDef) (climbed : m.climb j t = some c) :
      c.definitionName ≠ other := fun same =>
    first j bound (by rw [above_of_known known, climbed, Option.map_some, same])
  have inside : k + 1 < m.types.length :=
    climb_lt (fun c => c.definitionName = other) (mem_of_findType? known).1 climbed' named
      fun j bound c climbed => apart j (by omega) c climbed
  have entry (j : Nat) (bound : j ≤ k + 1) : (m.ancestors t)[j]? = m.climb j t := by
    rw [ancestors, getElem?_baseChain, if_pos (by omega)]
  have here : (m.ancestors t)[k]? = some a := by rw [entry k (by omega), below]
  have link : linkTo? other (m.ancestors t) = a.base := by
    refine linkTo?_eq here ?_ named (by rw [declared]; rfl) fun j bound c listed => ?_
    · rw [entry (k + 1) (Nat.le_refl _), climbed']
    · rw [entry j (by omega)] at listed
      exact apart j bound c listed
  have known' := findType?_of_mem (mem_types_of_baseOf? extended)
  rw [named] at known'
  refine ⟨t, a, b, ref, known, here, declared, resolved, named, ?_⟩
  rw [refAbove_of_known known known', ancestorRef, named, link, declared, Option.getD_some]

theorem mem_takeWhile_of_getElem? {α : Type} {p : α → Bool} {xs : List α} {k : Nat} {x : α}
    (here : xs[k]? = some x) (before : ∀ j ≤ k, ∀ y, xs[j]? = some y → p y = true) :
    x ∈ xs.takeWhile p := by
  induction k generalizing xs with
  | zero =>
    obtain ⟨rest, rfl⟩ := List.head?_eq_some_iff.1 (by rw [List.head?_eq_getElem?, here])
    rw [List.takeWhile_cons_of_pos (before 0 (Nat.le_refl _) x rfl)]
    exact List.mem_cons_self
  | succ k ih =>
    cases xs with
    | nil => cases here
    | cons y rest =>
      rw [List.takeWhile_cons_of_pos (before 0 (Nat.zero_le _) y rfl)]
      exact List.mem_cons_of_mem _ (ih here fun j bound => before (j + 1) (by omega))

/-- After an override there is more to be found than before. -/
theorem Overriding.absent_before {ancestor : MethodKey} {inherited : MethodDef}
    (step : m.Overriding d name ancestor inherited m') (absent : m'.declared? d other = none) :
    m.declared? d other = none := by
  by_cases same : other = name
  · exact same ▸ step.absent
  · rwa [step.declared?_other same, Option.map_eq_none_iff] at absent

end Module

namespace Weave

open ReleaseWeaver.Module

variable {c : WeaveContext} {d : Disposal} {names : List String} {given : List (String × MethodKey)}
  {m m' : Module} {name : String} {ancestor : MethodKey} {method : MethodDef}

/-- What is overridden is the first of its name up the chain, and below it nothing declares a
teardown before the run. -/
theorem Preparation.first_given (run : Preparation d names m given m')
    (listed : (name, ancestor) ∈ given) : ∃ k, m.above (k + 1) name = some ancestor.owner ∧
      ∀ j ≤ k, ∀ b, m.above j name = some b → m.declared? d b = none ∧ b ≠ ancestor.owner := by
  induction run with
  | done => cases listed
  | idle _ _ ih => exact ih listed
  | @given first _ m _ given m' inherited after needed step run ih =>
    obtain same | later := List.mem_cons.1 listed
    · cases same
      obtain ⟨k, a, there, declared, nothing⟩ := step.first
      have owned := (declared?_eq_some.1 declared).1.owned
      cases k with
      | zero =>
        obtain ⟨t, known, _⟩ := needed
        rw [above_zero known] at there
        cases there
        rw [step.absent] at declared
        cases declared
      | succ k =>
        refine ⟨k, owned ▸ there, fun j bound b reached => ?_⟩
        have none := nothing j (Nat.lt_succ_of_le bound) b reached
        refine ⟨none, fun same => ?_⟩
        rw [same, owned, declared] at none
        cases none
    · obtain ⟨k, there, before⟩ := ih later
      rw [above_of_shapes step.shapes] at there before
      exact ⟨k, there, fun j bound b reached =>
        ⟨step.absent_before (before j bound b reached).1, (before j bound b reached).2⟩⟩

/-- Where what it overrides is seen without parameters, an override mentions none. -/
theorem Preparation.scopedIn_given {after : Module} (run : Preparation d names m given m')
    (listed : (name, ancestor) ∈ given) (gives : m.Gives d name ancestor method)
    (declared : (after.declared? d ancestor.owner).isSome = true)
    (closed : ∀ t, m.findType? name = some t → m.SeesClosed after d t) : method.ScopedIn [] := by
  obtain ⟨override, overrides, rfl⟩ := gives.override
  obtain ⟨k, there, before⟩ := run.first_given listed
  obtain ⟨t, a, b, ref, known, below, link, resolved, named, refers⟩ :=
    refAbove_eq there fun j bound reached => (before j bound _ reached).2 rfl
  obtain ⟨links, returns⟩ := closed t known
  have absent (j : Nat) (bound : j ≤ k) (u : TypeDef) (climbed : (m.ancestors t)[j]? = some u) :
      m.declared? d u.definitionName = none := by
    refine (before j bound _ ?_).1
    rw [ancestors, getElem?_baseChain] at climbed
    split at climbed
    · rw [above_of_known known, climbed, Option.map_some]
    · cases climbed
  have called : ref.ScopedIn [] := by
    refine links a (mem_takeWhile_of_getElem? below fun j bound u climbed => ?_) ref link b resolved
      (named ▸ declared)
    have none := absent j bound u climbed
    rw [declared?_of_known (findType?_of_mem (mem_types_of_ancestors (mem_of_findType? known).1
      (List.mem_of_getElem? climbed)))] at none
    rw [none, Option.isNone_none]
  obtain ⟨_, _, inherited, found, nothing⟩ := overrides
  obtain ⟨x, first, rfl⟩ := Option.map_eq_some_iff.1 found
  have inherits : m.inheritedTeardown? d t = some x := by
    rw [inheritedTeardown?_eq (mem_of_findType? known).1,
      findSome?_drop_ancestors known ((Module.needsOverride_iff known).1 gives.needed).2.1]
    exact ⟨_, _, inherited, first, fun j bound b reached =>
      Option.map_eq_none_iff.1 (nothing j bound b reached)⟩
  rw [refers]
  exact MethodDef.scopedIn_overrideVia (returns x inherits) called

/-- The getters of the commands that a run releases are members of the type. -/
theorem scopedIn_commandGetters {t : TypeDef} {getter : MethodRef} (getters : m.OwnsGetters)
    (known : (start c m).findType? name = some t) (isLocal : t.isLocal = true)
    (listed : getter ∈ m.commandGetters c t) : getter.declaring.ScopedIn t.generics := by
  obtain ⟨t₀, known₀, shape⟩ := findType?_of_shapes (shapes_start c m).symm known
  unfold commandGetters at listed
  split at listed
  · next capability target _ _ =>
    obtain ⟨⟨_, p⟩, inScope, read⟩ := List.mem_filterMap.1 listed
    dsimp only at read
    split at read
    · obtain ⟨key, reads, found⟩ := Option.bind_eq_some_iff.1 read
      obtain ⟨u, knownU, made⟩ := Option.bind_eq_some_iff.1 found
      obtain ⟨own, _, rfl⟩ := Option.map_eq_some_iff.1 made
      have among : p ∈ t₀.properties := by
        rw [show t₀.properties = t₀.shape.properties from rfl, shape]
        obtain ⟨_, among, same⟩ := List.mem_map.1 (List.mem_of_mem_filter inScope)
        exact (Prod.mk.inj same).2 ▸ among
      have isLocal₀ : t₀.isLocal = true := by
        rw [show t₀.isLocal = t₀.shape.isLocal from rfl, shape]
        exact isLocal
      have owned := getters t₀ (mem_of_findType? known₀).1 isLocal₀ p among key reads
      rw [owned, (mem_of_findType? known₀).2, known] at knownU
      cases knownU
      exact t.scopedIn_selfRef
    · cases read
  · cases listed

/-- What a run puts into a method names members of the method's type and of the collaborators. -/
theorem scopedIn_inserted {key : MethodKey} {t : TypeDef} (closed : c.collaborators.Closed)
    (getters : m.OwnsGetters) (known : (start c m).findType? key.owner = some t) (own : MethodDef) :
    ∀ i ∈ (m.inserted c key own).all, i.ScopedIn t.generics := by
  unfold Module.inserted
  rw [known]
  dsimp only
  split
  · next accepted =>
    exact WeaveContext.scopedIn_insertions closed fun getter listed =>
      scopedIn_commandGetters getters known (Bool.and_eq_true_iff.1 accepted).1 listed
  · nofun

variable {key : MethodKey} {outcome : WeaveOutcome}

/-- A method that is new in the end mentions no parameter. -/
theorem Completed.scopedIn_new (completed : Completed c m outcome) (getters : m.OwnsGetters)
    (closed : c.collaborators.Closed) (seen : ∀ t ∈ m.types,
      (outcome.module.findMethod? (m.nextMethodKey t.definitionName)).isSome = true →
      m.SeesClosed outcome.module c.disposal t)
    (absent : m.findMethod? key = none) (found : outcome.module.findMethod? key = some method) :
    method.ScopedIn [] := by
  obtain ⟨names, given, run, _⟩ := preparation_start c m
  obtain ⟨ancestor, listed, next⟩ := completed.given_of_new run absent found
  obtain ⟨_, _, owner, _, knownO, own', _⟩ := completed.delegates run listed
  obtain ⟨override, gives, prepared⟩ := run.declared?_given listed
  have keyed := (declared?_eq_some.1 prepared).2
  rw [← next] at keyed
  have declared : (outcome.module.declared? c.disposal ancestor.owner).isSome = true := by
    rw [declared?_of_known knownO, own', Option.isSome_some]
  have before : override.ScopedIn [] := by
    refine run.scopedIn_given listed gives declared fun t known => ?_
    obtain ⟨among, named⟩ := mem_of_findType? known
    refine seen t among ?_
    rw [named, ← next, found, Option.isSome_some]
  -- Only a type without parameters gets an override, so its own members mention none either.
  obtain ⟨t₀, known₀, _, _, planned⟩ := gives.needed
  have generics := List.isEmpty_iff.1 ((planTeardown_eq_synthesize known₀).1 planned).2.1
  obtain ⟨t, known, shape⟩ := findType?_of_shapes (shapes_start c m) known₀
  rw [← TypeDef.generics_of_shape shape] at generics
  rw [completed.findMethod? key, keyed, Option.map_some] at found
  rw [← Option.some.inj found]
  refine MethodDef.scopedIn_rewritten straight_inserted ?_ before
  rw [← generics]
  exact scopedIn_inserted closed getters known override

/-- A method that was there before stays in the scope of its type. -/
theorem Completed.scopedIn_old {t : TypeDef} (completed : Completed c m outcome)
    (getters : m.OwnsGetters) (closed : c.collaborators.Closed)
    (known : m.findType? key.owner = some t) (inScope : own.ScopedIn t.generics)
    (old : m.findMethod? key = some own) (found : outcome.module.findMethod? key = some method) :
    method.ScopedIn t.generics := by
  obtain ⟨_, _, run, _⟩ := preparation_start c m
  obtain ⟨t', known', shape⟩ := findType?_of_shapes (shapes_start c m) known
  rw [completed.findMethod? key, run.findMethod?_old old, Option.map_some] at found
  rw [← Option.some.inj found]
  refine MethodDef.scopedIn_rewritten straight_inserted ?_ (MethodDef.scopedIn_openedIf _ inScope)
  rw [← TypeDef.generics_of_shape shape]
  exact scopedIn_inserted closed getters known' _

end Weave

namespace Module

variable {m : Module}

/-- Where what the overrides are made of and the collaborators are seen without parameters, a run
leaves a well-scoped module well scoped, and no method that it adds mentions a parameter. -/
theorem weave_wellScoped {config : Config} {report : WeaveReport} {collaborators : Collaborators}
    (wellScoped : m.WellScoped) (getters : m.OwnsGetters)
    (resolved : Collaborators.resolve m config = .ok collaborators) (closed : collaborators.Closed)
    (ended : (m.weave config).result = .ok report)
    (seen : ∀ t ∈ m.types,
      ((m.weave config).module.findMethod? (m.nextMethodKey t.definitionName)).isSome = true →
      m.SeesClosed (m.weave config).module ⟨collaborators.contract, config.releaseMethod⟩ t) :
    (m.weave config).module.WellScoped ∧ ∀ key method, m.findMethod? key = none →
      (m.weave config).module.findMethod? key = some method → method.ScopedIn [] := by
  obtain ⟨c, rfl, completed, _⟩ := Weave.completed_of_ok ended
  cases resolved.symm.trans completed.weavable.bound.collaborators
  have new (key : MethodKey) (method : MethodDef) (absent : m.findMethod? key = none)
      (found : (m.weave c.config).module.findMethod? key = some method) : method.ScopedIn [] :=
    completed.scopedIn_new getters closed seen absent found
  refine ⟨fun t listed isLocal => ?_, new⟩
  have known := findType?_of_mem listed
  obtain ⟨t₀, known₀, shape⟩ := findType?_of_shapes completed.shapes.symm known
  obtain ⟨base, methods⟩ := wellScoped t₀ (mem_of_findType? known₀).1
    ((TypeDef.isLocal_of_shape shape).trans isLocal)
  rw [← TypeDef.generics_of_shape shape]
  refine ⟨?_, fun method declared => ?_⟩
  · rw [show t.base = t.shape.base from rfl, ← shape]
    exact base
  · obtain ⟨i, bound, rfl⟩ := List.getElem_of_mem declared
    have found : (m.weave c.config).module.findMethod? ⟨t.definitionName, i⟩ = some t.methods[i] :=
      findMethod?_eq_some.2 ⟨t, known, List.getElem?_eq_getElem bound⟩
    cases old : m.findMethod? ⟨t.definitionName, i⟩ with
    | none => exact (new _ _ old found).of_closed _
    | some own =>
      have entry := old
      rw [findMethod?_of_known known₀] at entry
      exact completed.scopedIn_old getters closed known₀
        (methods own (List.mem_of_getElem? entry)) old found

end Module

/-! ## A chain of generic types -/

namespace Sample

def rootOf (argument : TypeRef) : TypeRef := .named modelsNamespace "Root`1" none [argument]

/-- A marked class that extends a generic class, whose own base is a generic class with a
teardown. -/
def genericChain (link : TypeRef) (returns : Option TypeRef) : Module :=
  let root : TypeDef :=
    { ns := modelsNamespace, name := "Root`1", base := some object, interfaces := [disposable] }
  let base : TypeRef := .named modelsNamespace "Mid`1" none [string]
  let building : Building Unit := do
    let root ← Model.startType root objectConstructor
    root.generic "T"
    let _ ← root.method { name := "Dispose", returns, flags := .overridable } [.ret]
    let mid ← Model.extending "Mid`1" link (constructorOf link [])
    mid.generic "T"
    let leaf ← Model.extending "Leaf" base (constructorOf base [])
    leaf.mark trackHandlesMarker
    let _ ← leaf.constructor [] []
  match building.run importedModule with
  | .ok _ m | .error _ m => m

/-- The module with a generic container. -/
def withGenericContainer (m : Module) : Module :=
  m.modifyType "System.Reactive.Disposables.CompositeDisposable" fun t =>
    { t with generics := ["T"] }

/-- A command property whose getter is a method of a generic type. -/
def foreignGetter : Module :=
  let command : PropertyDef :=
    { name := "Command", type := commandCapability, attributes := [releaseCommandsMarker],
      getter := some ⟨"Sweep.Tests.Models.Mid`1", 0⟩ }
  let getter : MethodDef :=
    { name := "get_Command", returns := some commandCapability,
      body := some (.ofInstrs [.ldnull, .ret]) }
  let m := (genericChain (rootOf int64) none).addMethod "Sweep.Tests.Models.Mid`1" getter
  match m.addProperty "Sweep.Tests.Models.Leaf" command with
  | .ok m => m
  | .error _ => m

end Sample

open Sample in
theorem Module.weave_wellScoped_genericChain :
    let m := genericChain (rootOf int64) none
    let key : MethodKey := ⟨"Sweep.Tests.Models.Leaf", 1⟩
    m.WellScoped ∧ m.findMethod? key = none ∧ ∃ report method,
      (m.weave Config.default).result = .ok report ∧
      (m.weave Config.default).module.findMethod? key = some method ∧
      (m.weave Config.default).module.WellScoped ∧ method.ScopedIn [] := by
  intro m key
  obtain ⟨wellScoped, getters, absent, resolves, ends, given⟩ : m.WellScoped ∧ m.OwnsGetters ∧
      (m.findMethod? key).isNone = true ∧
      (Collaborators.resolve m Config.default).toOption.any (fun found : Collaborators =>
        decide (found.Closed ∧ ∀ t ∈ m.types, ((m.weave Config.default).module.findMethod?
            (m.nextMethodKey t.definitionName)).isSome = true →
          m.SeesClosed (m.weave Config.default).module
            ⟨found.contract, Config.default.releaseMethod⟩ t)) = true ∧
      (m.weave Config.default).result.toOption.isSome = true ∧
      ((m.weave Config.default).module.findMethod? key).isSome = true := by
    decide +kernel
  obtain ⟨report, ended⟩ : ∃ report, (m.weave Config.default).result = .ok report := by
    cases result : (m.weave Config.default).result with
    | ok report => exact ⟨report, rfl⟩
    | error e =>
      rw [result] at ends
      cases ends
  cases resolved : Collaborators.resolve m Config.default with
  | error e =>
    rw [resolved] at resolves
    cases resolves
  | ok collaborators =>
    rw [resolved, Except.toOption, Option.any_some, decide_eq_true_iff] at resolves
    obtain ⟨closed, seen⟩ := resolves
    obtain ⟨method, found⟩ := Option.isSome_iff_exists.1 given
    have absent := Option.isNone_iff_eq_none.1 absent
    obtain ⟨wellScoped', new⟩ := weave_wellScoped wellScoped getters resolved closed ended seen
    exact ⟨wellScoped, absent, report, method, ended, found, wellScoped',
      new key method absent found⟩

open Sample in
/-- An override that calls through an open link, an override that returns a parameter, a generic
container, and a getter of another type. -/
theorem Module.weave_leavesScope :
    let leaks m := m.WellScoped ∧ (m.weave Config.default).result.toOption.isSome = true ∧
      ¬ (m.weave Config.default).module.WellScoped
    leaks (genericChain (rootOf (.param "T")) none) ∧
      leaks (genericChain (rootOf int64) (some (.param "T"))) ∧
      leaks (withGenericContainer (genericChain (rootOf int64) none)) ∧
      leaks foreignGetter := by
  decide +kernel

end ReleaseWeaver
