import Mathlib.Data.List.Perm.Subperm
import ReleaseWeaver.Proofs.Metadata.Changes

/-
  Base chains. A walk up the chain of a type is cut off after as many steps as the module has types,
  which is late enough for whatever is looked for: the first type that has it is nearer. What lies
  above a type is told by names, which are the same in modules of the same shapes; and where no
  type is above itself, each type has a longer chain than those above it.
-/

namespace ReleaseWeaver

/-- Below a number with a property there is a least one. -/
theorem exists_least {p : Nat → Prop} {k : Nat} (here : p k) :
    ∃ j ≤ k, p j ∧ ∀ i < j, ¬p i := by
  induction k using Nat.strongRecOn with
  | ind k ih =>
    by_cases earlier : ∃ i < k, p i
    · obtain ⟨i, before, there⟩ := earlier
      obtain ⟨j, bound, least⟩ := ih i before there
      exact ⟨j, by omega, least⟩
    · exact ⟨k, Nat.le_refl k, here, fun i before there => earlier ⟨i, before, there⟩⟩

namespace Module

variable {m m' : Module} {d : Disposal} {t t' : TypeDef}

/-! ## The base chain -/

theorem mem_types_of_baseOf? {base : TypeDef} (known : m.baseOf? t = some base) :
    base ∈ m.types := by
  obtain ⟨ref, _, resolved⟩ := Option.bind_eq_some_iff.1 known
  unfold resolve? at resolved
  split at resolved
  · cases resolved
  · exact (mem_of_findType? resolved).1

theorem mem_types_of_baseChain {count : Nat} {a : TypeDef} (listed : t ∈ m.types)
    (above : a ∈ m.baseChain count t) : a ∈ m.types := by
  induction count generalizing t with
  | zero => cases above
  | succ count ih =>
    unfold baseChain at above
    obtain rfl | further := List.mem_cons.1 above
    · exact listed
    · split at further
      · next base known => exact ih (mem_types_of_baseOf? known) further
      · cases further

theorem mem_types_of_ancestors {a : TypeDef} (listed : t ∈ m.types)
    (above : a ∈ m.ancestors t) : a ∈ m.types := mem_types_of_baseChain listed above

/-- The type that some steps up the base chain lead to. -/
def climb (m : Module) : Nat → TypeDef → Option TypeDef
  | 0, t => some t
  | count + 1, t => (m.baseOf? t).bind (m.climb count)

theorem climb_add (m : Module) (j k : Nat) (t : TypeDef) :
    m.climb (j + k) t = (m.climb j t).bind (m.climb k) := by
  induction j generalizing t with
  | zero => rw [Nat.zero_add, climb, Option.bind_some]
  | succ j ih =>
    rw [Nat.succ_add, climb, climb, Option.bind_assoc]
    congr 1
    funext base
    exact ih base

theorem mem_types_of_climb {k : Nat} {a : TypeDef} (listed : t ∈ m.types)
    (found : m.climb k t = some a) : a ∈ m.types := by
  induction k generalizing t with
  | zero => exact Option.some.inj found ▸ listed
  | succ k ih =>
    obtain ⟨base, known, above⟩ := Option.bind_eq_some_iff.1 found
    exact ih (mem_types_of_baseOf? known) above

theorem getElem?_baseChain (m : Module) (count k : Nat) (t : TypeDef) :
    (m.baseChain count t)[k]? = if k < count then m.climb k t else none := by
  induction count generalizing k t with
  | zero => rfl
  | succ count ih =>
    cases k with
    | zero => rfl
    | succ k =>
      rw [baseChain, List.getElem?_cons_succ, climb]
      cases m.baseOf? t with
      | none => simp
      | some base => simp [ih]

/-- The first type of a kind up the chain is fewer steps away than there are types. -/
theorem climb_lt (good : TypeDef → Prop) {k : Nat} {a : TypeDef} (listed : t ∈ m.types)
    (found : m.climb k t = some a) (here : good a)
    (first : ∀ j < k, ∀ b, m.climb j t = some b → ¬good b) : k < m.types.length := by
  -- A type that came twice on the way would come again before the first one.
  have distinct (i j : Nat) (before : i < j) (bound : j ≤ k) : m.climb i t ≠ m.climb j t := by
    intro same
    have again : m.climb (i + (k - j)) t = some a := by
      rw [climb_add, same, ← climb_add, show j + (k - j) = k by omega, found]
    exact first (i + (k - j)) (by omega) a again here
  have once : ((List.range (k + 1)).map fun j => m.climb j t).Nodup := by
    refine List.Nodup.map_on (fun i inside j inside' same => ?_) List.nodup_range
    have bound := List.mem_range.1 inside
    have bound' := List.mem_range.1 inside'
    by_contra other
    obtain before | after := Nat.lt_or_gt_of_ne other
    · exact distinct i j before (by omega) same
    · exact distinct j i after (by omega) same.symm
  have among : ((List.range (k + 1)).map fun j => m.climb j t) ⊆ m.types.map some := by
    intro x listed'
    obtain ⟨j, inside, rfl⟩ := List.mem_map.1 listed'
    have bound := List.mem_range.1 inside
    have reached : m.climb (j + (k - j)) t = some a := by
      rw [show j + (k - j) = k by omega, found]
    rw [climb_add] at reached
    obtain ⟨b, climbed, _⟩ := Option.bind_eq_some_iff.1 reached
    rw [climbed]
    exact List.mem_map_of_mem (mem_types_of_climb listed climbed)
  have count := (List.subperm_of_subset once among).length_le
  simp only [List.length_map, List.length_range] at count
  omega

/-! ## Names up the chain -/

/-- The name of the type that some steps up the base chain lead to. -/
def above (m : Module) (k : Nat) (name : String) : Option String :=
  ((m.findType? name).bind (m.climb k)).map TypeDef.definitionName

variable {name other : String} {j k : Nat}

theorem above_of_known (known : m.findType? name = some t) (k : Nat) :
    m.above k name = (m.climb k t).map TypeDef.definitionName := by
  rw [above, known, Option.bind_some]

theorem above_zero (known : m.findType? name = some t) : m.above 0 name = some name := by
  rw [above_of_known known, climb, Option.map_some, (mem_of_findType? known).2]

theorem above_add (m : Module) (j k : Nat) (name : String) :
    m.above (j + k) name = (m.above j name).bind (m.above k) := by
  cases known : m.findType? name with
  | none => simp only [above, known, Option.bind_none, Option.map_none]
  | some t =>
    rw [above_of_known known, above_of_known known, climb_add]
    cases climbed : m.climb j t with
    | none => rfl
    | some a =>
      have found := findType?_of_mem (mem_types_of_climb (mem_of_findType? known).1 climbed)
      rw [Option.bind_some, Option.map_some, Option.bind_some, above_of_known found]

/-- `x` is what the first type from `name` upwards has that has anything. -/
def FirstUp {α : Type} (m : Module) (f : String → Option α) (name : String) (x : α) : Prop :=
  ∃ k a, m.above k name = some a ∧ f a = some x ∧
    ∀ j < k, ∀ b, m.above j name = some b → f b = none

section FirstUp

variable {α : Type} {f f' : String → Option α} {x y : α}

theorem FirstUp.unique (first : m.FirstUp f name x) (first' : m.FirstUp f name y) : x = y := by
  obtain ⟨k, a, there, found, nothing⟩ := first
  obtain ⟨k', a', there', found', nothing'⟩ := first'
  obtain before | rfl | after := Nat.lt_trichotomy k k'
  · rw [nothing' k before a there] at found
    cases found
  · rw [there] at there'
    cases there'
    rw [found] at found'
    exact Option.some.inj found'
  · rw [nothing k' after a' there'] at found'
    cases found'

/-- Only what is above counts. -/
theorem FirstUp.congr (first : m.FirstUp f name x)
    (same : ∀ k a, m.above k name = some a → f' a = f a) : m.FirstUp f' name x := by
  obtain ⟨k, a, there, found, nothing⟩ := first
  refine ⟨k, a, there, by rw [same k a there, found], fun j before b reached => ?_⟩
  rw [same j b reached]
  exact nothing j before b reached

theorem FirstUp.map {β : Type} (φ : α → β) (first : m.FirstUp f name x) :
    m.FirstUp (fun n => (f n).map φ) name (φ x) := by
  obtain ⟨k, a, there, found, nothing⟩ := first
  refine ⟨k, a, there, Option.map_eq_some_iff.2 ⟨x, found, rfl⟩, fun j before b reached => ?_⟩
  exact Option.map_eq_none_iff.2 (nothing j before b reached)

/-- Where nothing is found on the way to a type, what that type finds is found. -/
theorem FirstUp.through (there : m.above j name = some other)
    (nothing : ∀ i < j, ∀ b, m.above i name = some b → f b = none) (first : m.FirstUp f other x) :
    m.FirstUp f name x := by
  obtain ⟨k, a, there', found, nothing'⟩ := first
  refine ⟨j + k, a, by rw [above_add, there, Option.bind_some, there'], found,
    fun i before b reached => ?_⟩
  by_cases early : i < j
  · exact nothing i early b reached
  · obtain ⟨i, rfl⟩ := Nat.exists_eq_add_of_le (Nat.le_of_not_lt early)
    rw [above_add, there, Option.bind_some] at reached
    exact nothing' i (by omega) b reached

/-- What is found is found from each type on the way. -/
theorem FirstUp.on_the_way (there : m.above k name = some other) (found : f other = some x)
    (nothing : ∀ i < k, ∀ b, m.above i name = some b → f b = none) (before : j ≤ k) {b : String}
    (reached : m.above j name = some b) : m.FirstUp f b x := by
  obtain ⟨i, rfl⟩ := Nat.exists_eq_add_of_le before
  rw [above_add, reached, Option.bind_some] at there
  refine ⟨i, other, there, found, fun i' earlier b' reached' => nothing (j + i') (by omega) b' ?_⟩
  rw [above_add, reached, Option.bind_some, reached']

section Given

variable {old new : α} (none : f name = none) (given : f' name = some new)
  (others : ∀ n ≠ name, f' n = f n) (inherits : m.FirstUp f name old)

include given others inherits

/-- A type that is given something of its own is found instead of what it inherited. -/
theorem FirstUp.after_given (first : m.FirstUp f other x) :
    m.FirstUp f' other x ∨ x = old ∧ m.FirstUp f' other new := by
  obtain ⟨k, a, there, found, nothing⟩ := first
  by_cases passes : ∃ j ≤ k, m.above j other = some name
  · obtain ⟨last, bound', passed⟩ := passes
    obtain ⟨j, bound, reached, first⟩ :=
      exists_least (p := fun j => m.above j other = some name) passed
    refine .inr ⟨(FirstUp.on_the_way there found nothing (by omega) reached).unique inherits,
      j, name, reached, given, fun i before b reached' => ?_⟩
    have ne : b ≠ name := fun same => first i before (same ▸ reached')
    rw [others b ne]
    exact nothing i (by omega) b reached'
  · have same (i : Nat) (bound : i ≤ k) (b : String) (reached : m.above i other = some b) :
        f' b = f b := others b fun same => passes ⟨i, bound, same ▸ reached⟩
    refine .inl ⟨k, a, there, by rw [same k (Nat.le_refl k) a there, found], ?_⟩
    intro i before b reached
    rw [same i (by omega) b reached]
    exact nothing i before b reached

include none

theorem FirstUp.before_given (first : m.FirstUp f' other x) :
    m.FirstUp f other x ∨ x = new ∧ m.FirstUp f other old := by
  obtain ⟨k, a, there, found, nothing⟩ := first
  have before (b : String) (empty : f' b = Option.none) : f b = Option.none := by
    by_cases same : b = name
    · rw [same, given] at empty
      cases empty
    · rw [← others b same, empty]
  have nothing' : ∀ i < k, ∀ b, m.above i other = some b → f b = Option.none :=
    fun i earlier b reached => before b (nothing i earlier b reached)
  by_cases here : a = name
  · subst here
    rw [given] at found
    exact .inr ⟨(Option.some.inj found).symm, inherits.through there nothing'⟩
  · exact .inl ⟨k, a, there, by rw [← others a here, found], nothing'⟩

end Given

/-- The chain is long enough for the first type that has something. -/
theorem findSome?_ancestors (known : m.findType? name = some t) :
    (m.ancestors t).findSome? (fun a => f a.definitionName) = some x ↔ m.FirstUp f name x := by
  obtain ⟨listed, named⟩ := mem_of_findType? known
  rw [List.findSome?_eq_some_iff]
  constructor
  · rintro ⟨before, a, after, split, found, nothing⟩
    have reached (j : Nat) (b : TypeDef) (inside : (m.ancestors t)[j]? = some b) :
        m.climb j t = some b := by
      rw [ancestors, getElem?_baseChain] at inside
      split at inside
      · exact inside
      · cases inside
    have there : (m.ancestors t)[before.length]? = some a := by
      rw [split]
      simp
    have inside : before.length < m.types.length := by
      rw [ancestors, getElem?_baseChain] at there
      by_contra beyond
      rw [if_neg beyond] at there
      cases there
    refine ⟨before.length, a.definitionName, ?_, found, fun j bound b reached' => ?_⟩
    · rw [above_of_known known, reached _ a there, Option.map_some]
    · rw [above_of_known known] at reached'
      obtain ⟨u, climbed, rfl⟩ := Option.map_eq_some_iff.1 reached'
      have here : (m.ancestors t)[j]? = some u := by
        rw [ancestors, getElem?_baseChain, if_pos (by omega), climbed]
      rw [split, List.getElem?_append_left bound] at here
      exact nothing u (List.mem_of_getElem? here)
  · rintro ⟨k, n, reached, found, nothing⟩
    rw [above_of_known known] at reached
    obtain ⟨a, climbed, rfl⟩ := Option.map_eq_some_iff.1 reached
    have without (j : Nat) (before : j < k) (b : TypeDef) (climbed' : m.climb j t = some b) :
        f b.definitionName = none :=
      nothing j before b.definitionName (by rw [above_of_known known, climbed', Option.map_some])
    have inside : k < m.types.length :=
      climb_lt (fun b => f b.definitionName ≠ none) listed climbed (by rw [found]; simp)
        fun j before b climbed' => not_not_intro (without j before b climbed')
    have here : (m.ancestors t)[k]? = some a := by
      rw [ancestors, getElem?_baseChain, if_pos inside, climbed]
    obtain ⟨bound, same⟩ := List.getElem?_eq_some_iff.1 here
    refine ⟨(m.ancestors t).take k, a, (m.ancestors t).drop (k + 1), ?_, found, ?_⟩
    · rw [← same, List.getElem_cons_drop, List.take_append_drop]
    · intro b among
      obtain ⟨j, there⟩ := List.mem_iff_getElem?.1 among
      have before : j < k := by
        obtain ⟨short, _⟩ := List.getElem?_eq_some_iff.1 there
        rw [List.length_take] at short
        omega
      rw [List.getElem?_take_of_lt before, ancestors, getElem?_baseChain,
        if_pos (by omega)] at there
      exact without j before b there

/-- A type without anything of its own finds what it inherits. -/
theorem findSome?_drop_ancestors (known : m.findType? name = some t) (none : f name = none) :
    ((m.ancestors t).drop 1).findSome? (fun a => f a.definitionName) = some x ↔
      m.FirstUp f name x := by
  obtain ⟨listed, named⟩ := mem_of_findType? known
  have filled : 0 < m.types.length := List.length_pos_of_mem listed
  have first : (m.ancestors t)[0]? = some t := by
    rw [ancestors, getElem?_baseChain, if_pos filled, climb]
  rw [← findSome?_ancestors known]
  cases chain : m.ancestors t with
  | nil => rfl
  | cons a rest =>
    rw [chain] at first
    cases first
    rw [List.drop_one, List.tail_cons, List.findSome?_cons, named, none]

end FirstUp

/-! ## Modules of the same shapes -/

theorem resolve?_of_shapes (shapes : m'.shapes = m.shapes) (ref : TypeRef) :
    (m'.resolve? ref).map TypeDef.shape = (m.resolve? ref).map TypeDef.shape := by
  rw [resolve?, resolve?]
  split
  · rfl
  · exact findType?_shape shapes _

theorem baseOf?_of_shapes (shapes : m'.shapes = m.shapes) (same : t'.shape = t.shape) :
    (m'.baseOf? t').map TypeDef.shape = (m.baseOf? t).map TypeDef.shape := by
  have base : t'.base = t.base := by
    show t'.shape.base = t.shape.base
    rw [same]
  rw [baseOf?, baseOf?, base]
  cases t.base with
  | none => rfl
  | some ref => exact resolve?_of_shapes shapes ref

theorem ancestors_of_shapes (shapes : m'.shapes = m.shapes) (same : t'.shape = t.shape) :
    (m'.ancestors t').map TypeDef.shape = (m.ancestors t).map TypeDef.shape := by
  have count : m'.types.length = m.types.length := by
    have lengths := congrArg List.length shapes
    simpa [Module.shapes] using lengths
  rw [ancestors, ancestors, count]
  generalize m.types.length = count
  induction count generalizing t t' with
  | zero => rfl
  | succ count ih =>
    rw [baseChain, baseChain, List.map_cons, List.map_cons, same]
    have base := baseOf?_of_shapes shapes same
    cases above : m.baseOf? t with
    | none =>
      rw [above, Option.map_none, Option.map_eq_none_iff] at base
      rw [base]
    | some u =>
      rw [above] at base
      obtain ⟨u', above', same'⟩ := Option.map_eq_some_iff.1 base
      rw [above']
      exact congrArg (List.cons _) (ih same')

theorem climb_of_shapes (shapes : m'.shapes = m.shapes) (same : t'.shape = t.shape) (k : Nat) :
    (m'.climb k t').map TypeDef.shape = (m.climb k t).map TypeDef.shape := by
  induction k generalizing t t' with
  | zero => exact congrArg some same
  | succ k ih =>
    have base := baseOf?_of_shapes shapes same
    rw [climb, climb]
    cases above : m.baseOf? t with
    | none =>
      rw [above, Option.map_none, Option.map_eq_none_iff] at base
      rw [base]
      rfl
    | some u =>
      rw [above] at base
      obtain ⟨u', above', same'⟩ := Option.map_eq_some_iff.1 base
      rw [above']
      exact ih same'

theorem above_of_shapes (shapes : m'.shapes = m.shapes) : m'.above = m.above := by
  funext k name
  cases known : m.findType? name with
  | none =>
    rw [above, above, known, unknown_of_shapes shapes known, Option.bind_none, Option.bind_none]
  | some t =>
    obtain ⟨t', known', same⟩ := findType?_of_shapes shapes known
    have names := congrArg (Option.map TypeDef.definitionName) (climb_of_shapes shapes same k)
    rw [Option.map_map, Option.map_map] at names
    rw [above_of_known known, above_of_known known']
    exact names

theorem firstUp_of_shapes {α : Type} (shapes : m'.shapes = m.shapes) (f : String → Option α)
    (name : String) (x : α) : m'.FirstUp f name x ↔ m.FirstUp f name x := by
  rw [FirstUp, FirstUp, above_of_shapes shapes]

/-! ## References to what is above -/

/-- The reference through which the type of a name sees the one of another. -/
def refAbove (m : Module) (name ancestor : String) : TypeRef :=
  match m.findType? name, m.findType? ancestor with
  | some t, some owner => m.ancestorRef t owner
  | _, _ => default

theorem refAbove_of_known {owner : TypeDef} (known : m.findType? name = some t)
    (known' : m.findType? other = some owner) : m.refAbove name other = m.ancestorRef t owner := by
  rw [refAbove, known, known']

theorem linkTo?_of_shapes (ancestor : String) {chain chain' : List TypeDef}
    (same : chain'.map TypeDef.shape = chain.map TypeDef.shape) :
    linkTo? ancestor chain' = linkTo? ancestor chain := by
  have through (chain : List TypeDef) :
      linkTo? ancestor chain = linkTo? ancestor (chain.map TypeDef.shape) := by
    induction chain with
    | nil => rfl
    | cons current rest ih =>
      cases rest with
      | nil => rfl
      | cons next rest =>
        rw [linkTo?, ih]
        rfl
  rw [through, through chain, same]

theorem refAbove_of_shapes (shapes : m'.shapes = m.shapes) : m'.refAbove = m.refAbove := by
  funext name ancestor
  cases known : m.findType? name with
  | none => rw [refAbove, refAbove, known, unknown_of_shapes shapes known]
  | some t =>
    obtain ⟨t', knownT, same⟩ := findType?_of_shapes shapes known
    cases known' : m.findType? ancestor with
    | none => rw [refAbove, refAbove, known, known', knownT, unknown_of_shapes shapes known']
    | some owner =>
      obtain ⟨owner', knownO, same'⟩ := findType?_of_shapes shapes known'
      have name : owner'.definitionName = owner.definitionName := by
        rw [← TypeDef.definitionName_shape, same', TypeDef.definitionName_shape]
      have self : owner'.selfRef = owner.selfRef := by
        show owner'.shape.selfRef = owner.shape.selfRef
        rw [same']
      rw [refAbove_of_known known known', refAbove_of_known knownT knownO, ancestorRef, ancestorRef,
        name, self, linkTo?_of_shapes _ (ancestors_of_shapes shapes same)]

/-- The first link that reaches an ancestor leads to it. -/
theorem linkTo?_baseChain {ancestor : String} {count : Nat}
    (above : ancestor ∈ ((m.baseChain count t).drop 1).map TypeDef.definitionName) :
    ∃ ref a, linkTo? ancestor (m.baseChain count t) = some ref ∧ m.resolve? ref = some a ∧
      a.definitionName = ancestor := by
  induction count generalizing t with
  | zero => cases above
  | succ count ih =>
    rw [baseChain] at above ⊢
    cases known : m.baseOf? t with
    | none =>
      rw [known] at above
      cases above
    | some base =>
      rw [known, List.drop_one, List.tail_cons] at above
      obtain ⟨ref, declared, resolved⟩ := Option.bind_eq_some_iff.1 known
      cases count with
      | zero => cases above
      | succ count =>
        have chain :
            m.baseChain (count + 1) base = base :: (m.baseChain (count + 1) base).drop 1 := by
          rw [baseChain]
          rfl
        dsimp only at above ⊢
        rw [chain] at above ⊢
        rw [linkTo?]
        by_cases here : base.definitionName = ancestor
        · rw [if_pos ⟨here, by rw [declared]; rfl⟩]
          exact ⟨ref, base, declared, resolved, here⟩
        · rw [if_neg fun both => here both.1, ← chain]
          obtain same | further := List.mem_cons.1 (List.map_cons ▸ above)
          · exact absurd same.symm here
          · exact ih further

/-- A type sees what is above it through a reference that leads there. -/
theorem resolve?_refAbove (there : m.above k name = some other) (ne : other ≠ name) :
    (m.resolve? (m.refAbove name other)).map TypeDef.definitionName = some other := by
  obtain ⟨a, climbed, named⟩ := Option.map_eq_some_iff.1 there
  obtain ⟨t, known, climbed⟩ := Option.bind_eq_some_iff.1 climbed
  obtain ⟨listed, name⟩ := mem_of_findType? known
  obtain ⟨j, _, ⟨a', climbed', named'⟩, first⟩ :=
    exists_least (p := fun j => ∃ a, m.climb j t = some a ∧ a.definitionName = other)
      ⟨a, climbed, named⟩
  have inside : j < m.types.length :=
    climb_lt (fun b => b.definitionName = other) listed climbed' named'
      fun i before b climbedB here => first i before ⟨b, climbedB, here⟩
  have strict : j ≠ 0 := by
    rintro rfl
    cases climbed'
    exact ne (named'.symm.trans name)
  have here : (m.ancestors t)[j]? = some a' := by
    rw [ancestors, getElem?_baseChain, if_pos inside, climbed']
  have above : other ∈ ((m.ancestors t).drop 1).map TypeDef.definitionName := by
    refine List.mem_map.2 ⟨a', List.mem_iff_getElem?.2 ⟨j - 1, ?_⟩, named'⟩
    rw [List.getElem?_drop, show 1 + (j - 1) = j by omega, here]
  obtain ⟨ref, b, link, resolved, nameB⟩ := linkTo?_baseChain above
  have known' := findType?_of_mem (mem_types_of_climb listed climbed')
  rw [named'] at known'
  rw [refAbove_of_known known known', ancestorRef, named', ancestors, link, Option.getD_some,
    resolved, Option.map_some, nameB]

theorem isDisposable_of_shapes (shapes : m'.shapes = m.shapes) (same : t'.shape = t.shape) :
    m'.isDisposable d t' = m.isDisposable d t := by
  have through (m : Module) (t : TypeDef) : m.isDisposable d t =
      ((m.ancestors t).map TypeDef.shape).any (implementsContract d.contract) := by
    rw [List.any_map]
    rfl
  rw [through, through, ancestors_of_shapes shapes same]

/-! ## Chains without a cycle -/

/-- No type is above itself. -/
def Acyclic (m : Module) : Prop := ∀ t ∈ m.types, ∀ k, m.climb (k + 1) t ≠ some t

/-- The chain of a type ends, so that no type of it is above itself. -/
def Grounded (m : Module) (t : TypeDef) : Prop := m.climb m.types.length t = none

instance : Decidable (m.Grounded t) :=
  decidable_of_iff ((m.climb m.types.length t).isNone = true) Option.isNone_iff_eq_none

/-- A chain without a cycle ends within as many steps as there are types. -/
theorem acyclic_iff : m.Acyclic ↔ ∀ t ∈ m.types, m.Grounded t := by
  constructor
  · intro acyclic t listed
    by_contra longer
    obtain ⟨a, climbed⟩ := Option.ne_none_iff_exists'.1 longer
    refine Nat.lt_irrefl _ (climb_lt (fun b => b = a) listed climbed rfl ?_)
    rintro j before b climbed' rfl
    refine acyclic b (mem_types_of_climb listed climbed') (m.types.length - j - 1) ?_
    rw [show m.types.length = j + (m.types.length - j - 1 + 1) by omega, climb_add, climbed',
      Option.bind_some] at climbed
    exact climbed
  · intro ends t listed k around
    -- Going round as often as there are types never leaves the chain.
    have again (count : Nat) : m.climb ((k + 1) * count) t = some t := by
      induction count with
      | zero => rfl
      | succ count ih => rw [Nat.mul_succ, climb_add, ih, Option.bind_some, around]
    have reached := again m.types.length
    rw [Nat.succ_mul, Nat.add_comm, climb_add, ends t listed] at reached
    cases reached

instance : Decidable m.Acyclic := decidable_of_iff _ acyclic_iff.symm

theorem Acyclic.of_shapes (acyclic : m.Acyclic) (shapes : m'.shapes = m.shapes) : m'.Acyclic := by
  intro t' listed' k around
  obtain ⟨t, known, same⟩ := findType?_of_shapes shapes.symm (findType?_of_mem listed')
  have climbed := climb_of_shapes shapes same.symm (k + 1)
  rw [around] at climbed
  obtain ⟨a, climbed, same'⟩ := Option.map_eq_some_iff.1 climbed.symm
  have found := findType?_of_mem (mem_types_of_climb (mem_of_findType? known).1 climbed)
  rw [← TypeDef.definitionName_shape, same', TypeDef.definitionName_shape, known] at found
  cases found
  exact acyclic t (mem_of_findType? known).1 k climbed

/-- How many types the chain of a type of that name has. -/
def depth (m : Module) (name : String) : Nat :=
  ((m.findType? name).map fun t => (m.ancestors t).length).getD 0

theorem depth_of_known (known : m.findType? name = some t) :
    m.depth name = (m.ancestors t).length := by
  rw [depth, known, Option.map_some, Option.getD_some]

theorem depth_of_shapes (shapes : m'.shapes = m.shapes) : m'.depth = m.depth := by
  funext name
  cases known : m.findType? name with
  | none =>
    rw [depth, depth, known, unknown_of_shapes shapes known]
    rfl
  | some t =>
    obtain ⟨t', known', same⟩ := findType?_of_shapes shapes known
    have lengths := congrArg List.length (ancestors_of_shapes shapes same)
    rw [List.length_map, List.length_map] at lengths
    rw [depth_of_known known, depth_of_known known', lengths]

namespace Grounded

variable {a : TypeDef} (grounded : m.Grounded t)

include grounded

theorem of_shapes (shapes : m'.shapes = m.shapes) (same : t'.shape = t.shape) :
    m'.Grounded t' := by
  have climbed := climb_of_shapes shapes same m.types.length
  have count : m'.types.length = m.types.length := by
    have lengths := congrArg List.length shapes
    rwa [Module.shapes, Module.shapes, List.length_map, List.length_map] at lengths
  rw [grounded, Option.map_none, Option.map_eq_none_iff] at climbed
  rw [Grounded, count, climbed]

theorem climb_eq_none (long : m.types.length ≤ k) : m.climb k t = none := by
  obtain ⟨j, rfl⟩ := Nat.exists_eq_add_of_le long
  rw [climb_add, grounded, Option.bind_none]

theorem getElem?_ancestors (k : Nat) : (m.ancestors t)[k]? = m.climb k t := by
  rw [ancestors, getElem?_baseChain]
  split
  · rfl
  · exact (grounded.climb_eq_none (by omega)).symm

theorem of_climb (climbed : m.climb k t = some a) : m.Grounded a := by
  have further := grounded.climb_eq_none (Nat.le_add_left m.types.length k)
  rw [climb_add, climbed, Option.bind_some] at further
  exact further

/-- The chain of a type above is the rest of the chain. -/
theorem drop_ancestors (climbed : m.climb k t = some a) :
    (m.ancestors t).drop k = m.ancestors a := by
  refine List.ext_getElem? fun i => ?_
  rw [List.getElem?_drop, grounded.getElem?_ancestors,
    (grounded.of_climb climbed).getElem?_ancestors, climb_add, climbed, Option.bind_some]

/-- A type has a longer chain than each type above it. -/
theorem length_ancestors (climbed : m.climb k t = some a) :
    (m.ancestors t).length = (m.ancestors a).length + k := by
  obtain ⟨inside, _⟩ := List.getElem?_eq_some_iff.1 ((grounded.getElem?_ancestors k).trans climbed)
  have rest := congrArg List.length (grounded.drop_ancestors climbed)
  rw [List.length_drop] at rest
  omega

theorem depth_above (known : m.findType? name = some t) (there : m.above k name = some other) :
    m.depth name = m.depth other + k := by
  rw [above_of_known known] at there
  obtain ⟨a, climbed, named⟩ := Option.map_eq_some_iff.1 there
  have known' := findType?_of_mem (mem_types_of_climb (mem_of_findType? known).1 climbed)
  rw [named] at known'
  rw [depth_of_known known, depth_of_known known', grounded.length_ancestors climbed]

theorem above_ne (known : m.findType? name = some t) (k : Nat) :
    m.above (k + 1) name ≠ some name := fun around => by
  have longer := grounded.depth_above known around
  omega

end Grounded

end Module

end ReleaseWeaver
