import ReleaseWeaver.Proofs.Machine.Dispatch

/-
  Where the search for the code of a call stops. A body is found at its own class, which has no
  native code for the method and no other body before it, and the classes passed on the way have
  neither. So a search that starts further up, short of that class, finds the same. Main statement:
  `Program.lookup_eq_body_iff`.
-/

namespace ReleaseWeaver.Machine.Program

variable {p : Program} {m : Module} {className other name : String} {count fuel k : Nat}
  {key : MethodKey} {d : MethodDef} {t : TypeDef} {b : Body}

/-! ## The methods of a class -/

/-- The first method of a class that answers a call with a body. -/
structure Answers (m : Module) (name : String) (count : Nat) (key : MethodKey) (d : MethodDef)
    (b : Body) : Prop where
  found : m.findMethod? key = some d
  answers : d.answersTo name count = true
  body : d.body = some b
  first : ∀ j < key.index, ∀ d', m.findMethod? ⟨key.owner, j⟩ = some d' →
    d'.answersTo name count = true → d'.body = none

theorem keyed_of_findMethod? (known : m.findType? className = some t) {i : Nat}
    (found : m.findMethod? ⟨className, i⟩ = some d) :
    t.keyedMethods[i]? = some (⟨className, i⟩, d) := by
  obtain ⟨t', known', there⟩ := Module.findMethod?_eq_some.1 found
  cases known.symm.trans known'
  rw [TypeDef.getElem?_keyedMethods, there, (Module.mem_of_findType? known).2]
  rfl

theorem findMethod?_of_keyed (known : m.findType? className = some t) {i : Nat}
    (keyed : t.keyedMethods[i]? = some (key, d)) :
    key = ⟨className, i⟩ ∧ m.findMethod? ⟨className, i⟩ = some d := by
  rw [TypeDef.getElem?_keyedMethods] at keyed
  obtain ⟨d', there, same⟩ := Option.map_eq_some_iff.1 keyed
  cases same
  rw [(Module.mem_of_findType? known).2]
  exact ⟨rfl, Module.findMethod?_eq_some.2 ⟨t, known, there⟩⟩

theorem bodyIn?_eq_body (known : m.findType? className = some t) :
    bodyIn? t name count = some (.body key d b) ↔
      key.owner = className ∧ Answers m name count key d b := by
  unfold bodyIn?
  rw [List.findSome?_eq_some_iff]
  constructor
  · rintro ⟨before, ⟨key', d'⟩, after, split, stops, nothing⟩
    dsimp only at stops
    split at stops
    · next answers =>
      obtain ⟨b', body, same⟩ := Option.map_eq_some_iff.1 stops
      cases same
      have here : t.keyedMethods[before.length]? = some (key, d) := by
        rw [split, List.getElem?_append_right (Nat.le_refl _), Nat.sub_self]
        rfl
      obtain ⟨rfl, found⟩ := findMethod?_of_keyed known here
      refine ⟨rfl, found, answers, body, fun j inside d' found' answers' => ?_⟩
      have keyed := keyed_of_findMethod? known found'
      rw [split, List.getElem?_append_left inside] at keyed
      have none := nothing _ (List.mem_of_getElem? keyed)
      dsimp only at none
      rwa [if_pos answers', Option.map_eq_none_iff] at none
    · cases stops
  · rintro ⟨rfl, found, answers, body, first⟩
    have here := keyed_of_findMethod? known found
    obtain ⟨inside, at_index⟩ := List.getElem?_eq_some_iff.1 here
    refine ⟨t.keyedMethods.take key.index, (key, d), t.keyedMethods.drop (key.index + 1), ?_, ?_, ?_⟩
    · conv_lhs => rw [← List.take_append_drop key.index t.keyedMethods]
      rw [List.drop_eq_getElem_cons inside, at_index]
    · dsimp only
      rw [if_pos answers, body, Option.map_some]
    · rintro ⟨key', d'⟩ listed
      obtain ⟨j, short⟩ := List.mem_iff_getElem?.1 listed
      rw [List.getElem?_take] at short
      split at short
      · next before =>
        obtain ⟨rfl, found'⟩ := findMethod?_of_keyed known short
        dsimp only
        split
        · next answers' => rw [first j before d' found' answers', Option.map_none]
        · rfl
      · cases short

theorem bodyIn?_eq_none_iff (known : m.findType? className = some t) :
    bodyIn? t name count = none ↔ ∀ i d, m.findMethod? ⟨className, i⟩ = some d →
      d.answersTo name count = true → d.body = none := by
  unfold bodyIn?
  rw [List.findSome?_eq_none_iff]
  constructor
  · intro nothing i d found answers
    have none := nothing _ (List.mem_of_getElem? (keyed_of_findMethod? known found))
    dsimp only at none
    rwa [if_pos answers, Option.map_eq_none_iff] at none
  · rintro nothing ⟨key, d⟩ listed
    obtain ⟨i, here⟩ := List.mem_iff_getElem?.1 listed
    obtain ⟨rfl, found⟩ := findMethod?_of_keyed known here
    dsimp only
    split
    · next answers => rw [nothing i d found answers, Option.map_none]
    · rfl

/-! ## Up the chain -/

/-- A class at which a search goes on. -/
def GoesPast (p : Program) (name : String) (count : Nat) (className : String) : Prop :=
  p.natives (nativeName className name) = none ∧
    ∀ i d, p.module.findMethod? ⟨className, i⟩ = some d → d.answersTo name count = true →
      d.body = none

theorem Answers.not_goesPast (answers : Answers p.module name count key d b) :
    ¬p.GoesPast name count key.owner := by
  rintro ⟨_, nothing⟩
  have none := nothing key.index d answers.found answers.answers
  rw [answers.body] at none
  cases none

/-- So many classes are passed before the one that answers with this body. -/
structure Finds (p : Program) (name : String) (count k : Nat) (className : String)
    (key : MethodKey) (d : MethodDef) (b : Body) : Prop where
  there : p.module.above k className = some key.owner
  passes : ∀ j < k, ∀ c, p.module.above j className = some c → p.GoesPast name count c
  bare : p.natives (nativeName key.owner name) = none
  answers : Answers p.module name count key d b

theorem finds_of_lookupIn (found : p.lookupIn name count fuel className = some (.body key d b)) :
    ∃ k, p.Finds name count k className key d b := by
  induction fuel generalizing className with
  | zero => cases found
  | succ fuel ih =>
    unfold lookupIn at found
    split at found
    · cases found
    next bare =>
    obtain ⟨t, known, rest⟩ := Option.bind_eq_some_iff.1 found
    split at rest
    · next callee here =>
      cases rest
      obtain ⟨rfl, answers⟩ := (bodyIn?_eq_body known).1 here
      exact ⟨0, Module.above_zero known, fun j before => absurd before (Nat.not_lt_zero j), bare,
        answers⟩
    · next nothing =>
      obtain ⟨base, extended, further⟩ := Option.bind_eq_some_iff.1 rest
      obtain ⟨k, there, passes, bare', answers⟩ := ih further
      refine ⟨k + 1, Module.above_succ.2 ⟨t, base, known, extended, there⟩, ?_, bare', answers⟩
      intro j before c reached
      cases j with
      | zero =>
        rw [Module.above_zero known] at reached
        cases reached
        exact ⟨bare, (bodyIn?_eq_none_iff known).1 nothing⟩
      | succ j =>
        obtain ⟨t', base', known', extended', reached'⟩ := Module.above_succ.1 reached
        cases known.symm.trans known'
        cases extended.symm.trans extended'
        exact passes j (Nat.lt_of_succ_lt_succ before) c reached'

theorem Finds.lookupIn (finds : p.Finds name count k className key d b) (fuel : Nat) :
    p.lookupIn name count (fuel + (k + 1)) className = some (.body key d b) := by
  obtain ⟨there, passes, bare, answers⟩ := finds
  induction k generalizing className with
  | zero =>
    cases there.symm.trans (Module.above_self there)
    obtain ⟨t, known, _⟩ := Module.findMethod?_eq_some.1 answers.found
    rw [Program.lookupIn, bare, known, Option.bind_some, (bodyIn?_eq_body known).2 ⟨rfl, answers⟩]
  | succ k ih =>
    obtain ⟨t, base, known, extended, further⟩ := Module.above_succ.1 there
    obtain ⟨silent, nothing⟩ := passes 0 (Nat.zero_lt_succ k) className (Module.above_zero known)
    rw [← Nat.add_assoc, Program.lookupIn, silent, known, Option.bind_some,
      (bodyIn?_eq_none_iff known).2 nothing, extended, Option.bind_some]
    exact ih further fun j before c reached => passes (j + 1) (Nat.succ_lt_succ before) c
      (Module.above_succ.2 ⟨t, base, known, extended, reached⟩)

/-- A call finds a body exactly if its class answers and the classes on the way do not. -/
theorem lookup_eq_body_iff : p.lookup className name count = some (.body key d b) ↔
    ∃ k, p.Finds name count k className key d b := by
  refine ⟨finds_of_lookupIn, fun ⟨k, finds⟩ => ?_⟩
  -- What answers is not passed, so the way leads to it once, and it is not too long.
  have inside := Module.above_lt finds.there fun j before reached =>
    finds.answers.not_goesPast (finds.passes j before _ reached)
  obtain ⟨fuel, enough⟩ := Nat.exists_eq_add_of_lt inside
  rw [lookup, show p.module.types.length + 1 = fuel + 1 + (k + 1) by omega]
  exact finds.lookupIn (fuel + 1)

/-- The same is found from a class on the way. -/
theorem Finds.onward {j : Nat} (finds : p.Finds name count k className key d b) (before : j ≤ k)
    (reached : p.module.above j className = some other) :
    p.Finds name count (k - j) other key d b := by
  obtain ⟨there, passes, bare, answers⟩ := finds
  obtain ⟨k, rfl⟩ := Nat.exists_eq_add_of_le before
  rw [Module.above_add, reached, Option.bind_some] at there
  refine ⟨by rwa [Nat.add_sub_cancel_left], fun i inside c reached' => ?_, bare, answers⟩
  refine passes (j + i) (by omega) c ?_
  rw [Module.above_add, reached, Option.bind_some, reached']

end ReleaseWeaver.Machine.Program
