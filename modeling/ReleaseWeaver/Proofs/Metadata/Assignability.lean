import ReleaseWeaver.Proofs.Metadata.Lookup

/-
  Assignability as reachability. From a reference the search follows the base types and interfaces
  of the definitions that references resolve to. It opens each definition name once, but a generic
  parameter, which no definition stands behind, takes up its name as well. Main statement: in
  whatever order the pending references are looked at, the search ends, finds only what the
  reference leads to, and finds all of it if no parameter on the way has the name of a definition on
  the way. A parameter of such a name can hide what the definition leads to, and then the order of
  the interfaces decides.
-/

namespace ReleaseWeaver

namespace Module

variable {m : Module} {t target u v : TypeRef} {d : TypeDef}

/-! ## What a reference leads to -/

/-- A reference leads to itself and, with a reference that resolves to a definition, to the base
type and the interfaces of that definition. -/
inductive Supertype (m : Module) (t : TypeRef) : TypeRef → Prop where
  | self : Supertype m t t
  | next {u v : TypeRef} {d : TypeDef} : Supertype m t u → m.resolve? u = some d →
      v ∈ d.supertypes → Supertype m t v

/-- The one reference leads to one that is the same as the other. -/
def Assignable (m : Module) (t target : TypeRef) : Prop :=
  ∃ u, m.Supertype t u ∧ (u == target) = true

/-- No parameter that a reference leads to has the name of a definition that it leads to. -/
def ParamsApart (m : Module) (t : TypeRef) : Prop :=
  ∀ p u, m.Supertype t p → p.isParam = true → m.Supertype t u → (m.resolve? u).isSome = true →
    p.definitionName ≠ u.definitionName

theorem resolve?_eq_some :
    m.resolve? u = some d ↔ u.isParam = false ∧ m.findType? u.definitionName = some d := by
  rw [resolve?]
  cases u.isParam <;> simp

/-- Parameters that no type is named like are apart. -/
theorem paramsApart_of_unnamed
    (start : t.isParam = true → (m.findType? t.definitionName).isNone = true)
    (links : ∀ d ∈ m.types, ∀ u ∈ d.supertypes, u.isParam = true →
      (m.findType? u.definitionName).isNone = true) : m.ParamsApart t := by
  intro p u leads param _ resolves same
  have unnamed : (m.findType? p.definitionName).isNone = true := by
    cases leads with
    | self => exact start param
    | next _ known listed =>
      exact links _ (mem_of_findType? (resolve?_eq_some.1 known).2).1 p listed param
  obtain ⟨d, known⟩ := Option.isSome_iff_exists.1 resolves
  rw [same, (resolve?_eq_some.1 known).2] at unnamed
  cases unnamed

/-- The references that looking at one makes pending, the last one first. -/
def links (m : Module) (u : TypeRef) : List TypeRef :=
  ((m.resolve? u).elim [] TypeDef.supertypes).reverse

theorem mem_links : v ∈ m.links u ↔ ∃ d, m.resolve? u = some d ∧ v ∈ d.supertypes := by
  cases known : m.resolve? u <;> simp [links, known]

end Module

/-! ## Searches -/

/-- The names that a search has looked at, and the references that wait. -/
structure TypeSearch where
  seen : List String
  pending : List TypeRef

namespace TypeSearch

open ReleaseWeaver.Module

variable {m : Module} {t target u v : TypeRef} {d : TypeDef} {s s' : TypeSearch} {answer : Bool}

def start (t : TypeRef) : TypeSearch := ⟨[], [t]⟩

/-- Any pending reference that is not the target is looked at: it is passed over if its name was
looked at before, and opened otherwise. -/
inductive Looks (m : Module) (target : TypeRef) : TypeSearch → TypeSearch → Prop where
  | passed {seen pending current rest} : pending.Perm (current :: rest) →
      (current == target) = false → seen.contains current.definitionName = true →
      Looks m target ⟨seen, pending⟩ ⟨seen, rest⟩
  | opened {seen pending current rest} : pending.Perm (current :: rest) →
      (current == target) = false → seen.contains current.definitionName = false →
      Looks m target ⟨seen, pending⟩
        ⟨current.definitionName :: seen, m.links current ++ rest⟩

/-- What a search may answer: it stops when nothing is pending, or when it looks at the target. -/
inductive Answers (m : Module) (target : TypeRef) : TypeSearch → Bool → Prop where
  | exhausted {seen} : Answers m target ⟨seen, []⟩ false
  | found {s : TypeSearch} {current : TypeRef} : current ∈ s.pending →
      (current == target) = true → Answers m target s true
  | looked {s s' : TypeSearch} {answer : Bool} : Looks m target s s' →
      Answers m target s' answer → Answers m target s answer

/-- Last in, first out is one of the orders. -/
theorem answers_reaches (m : Module) (target : TypeRef) (seen : List String)
    (pending : List TypeRef) :
    Answers m target ⟨seen, pending⟩ (m.reaches target seen pending) := by
  fun_induction m.reaches target seen pending with
  | case1 seen => exact .exhausted
  | case2 seen current rest same => exact .found List.mem_cons_self same
  | case3 seen current rest other known ih =>
    exact .looked (.passed (.refl _) (by simpa using other) known) ih
  | case4 seen current rest other new unknown ih =>
    refine .looked (.opened (.refl _) (by simpa using other) (by simpa using new)) ?_
    rw [links, unknown]
    exact ih
  | case5 seen current rest other new d known _ ih =>
    refine .looked (.opened (.refl _) (by simpa using other) (by simpa using new)) ?_
    rw [links, known]
    exact ih

/-- Every search comes to an end: a look opens links that were closed, or leaves fewer pending. -/
theorem wellFounded_looks (m : Module) (target : TypeRef) :
    WellFounded fun s' s => Looks m target s s' := by
  refine Subrelation.wf (r := fun s' s : TypeSearch =>
    m.openLinks s'.seen + s'.pending.length < m.openLinks s.seen + s.pending.length) ?_
    (measure fun s : TypeSearch => m.openLinks s.seen + s.pending.length).wf
  rintro _ _ (⟨waiting, _, _⟩ | @⟨seen, _, current, _, waiting, _, new⟩)
  · rw [waiting.length_eq]
    simp
  · have fewer := length_openLinksOf_le m.types seen current.definitionName
    simp only [waiting.length_eq, List.length_cons, List.length_append]
    cases known : m.resolve? current with
    | none =>
      simp only [links, known, openLinks, Option.elim_none, List.reverse_nil, List.length_nil]
        at fewer ⊢
      omega
    | some d =>
      have opened := openLinks_add_le (resolve?_eq_some.1 known).2 new
      simp only [links, known, Option.elim_some, List.length_reverse]
      omega

/-! ## What a search keeps -/

/-- Everything pending is something that the reference leads to. -/
def Sound (m : Module) (t : TypeRef) (s : TypeSearch) : Prop := ∀ u ∈ s.pending, m.Supertype t u

/-- The reference waits, or it is not the target and its name was looked at. -/
def Covers (target : TypeRef) (s : TypeSearch) (u : TypeRef) : Prop :=
  u ∈ s.pending ∨ u.definitionName ∈ s.seen ∧ (u == target) = false

/-- The start is covered, and so is what the definitions lead to whose names were looked at. -/
structure Thorough (m : Module) (t target : TypeRef) (s : TypeSearch) : Prop where
  start : s.Covers target t
  links : ∀ u d, m.Supertype t u → m.resolve? u = some d → u.definitionName ∈ s.seen →
    ∀ v ∈ d.supertypes, s.Covers target v

theorem sound_start (m : Module) (t : TypeRef) : (start t).Sound m t := by
  intro u waits
  rw [List.mem_singleton.1 waits]
  exact .self

theorem thorough_start (m : Module) (t target : TypeRef) :
    (start t).Thorough m t target where
  start := .inl List.mem_cons_self
  links := nofun

theorem Looks.sound (looks : Looks m target s s') (sound : s.Sound m t) : s'.Sound m t := by
  obtain ⟨waiting, _, _⟩ | ⟨waiting, _, _⟩ := looks
  · exact fun u later => sound u (waiting.mem_iff.2 (List.mem_cons_of_mem _ later))
  · intro u later
    obtain linked | later := List.mem_append.1 later
    · obtain ⟨d, known, listed⟩ := mem_links.1 linked
      exact .next (sound _ (waiting.mem_iff.2 List.mem_cons_self)) known listed
    · exact sound u (waiting.mem_iff.2 (List.mem_cons_of_mem _ later))

theorem Looks.covers (looks : Looks m target s s') (covers : s.Covers target u) :
    s'.Covers target u := by
  obtain ⟨waiting, other, known⟩ | ⟨waiting, other, _⟩ := looks
  · obtain waits | passed := covers
    · obtain rfl | later := List.mem_cons.1 (waiting.mem_iff.1 waits)
      · exact .inr ⟨List.contains_iff_mem.1 known, other⟩
      · exact .inl later
    · exact .inr passed
  · obtain waits | ⟨known, other'⟩ := covers
    · obtain rfl | later := List.mem_cons.1 (waiting.mem_iff.1 waits)
      · exact .inr ⟨List.mem_cons_self, other⟩
      · exact .inl (List.mem_append_right _ later)
    · exact .inr ⟨List.mem_cons_of_mem _ known, other'⟩

/-- Where parameters are apart from definitions, a look opens whatever has the name. -/
theorem Looks.thorough (apart : m.ParamsApart t) (looks : Looks m target s s')
    (sound : s.Sound m t) (thorough : s.Thorough m t target) : s'.Thorough m t target where
  start := looks.covers thorough.start
  links := by
    intro u d leads known named v listed
    have kept := looks.covers (u := v)
    obtain _ | @⟨_, _, current, rest, waiting, _, _⟩ := looks
    · exact kept (thorough.links u d leads known named v listed)
    · obtain here | before := List.mem_cons.1 named
      · have here' := sound current (waiting.mem_iff.2 List.mem_cons_self)
        have resolves : (m.resolve? u).isSome = true := by rw [known]; rfl
        have isNamed : current.isParam = false := by
          by_contra param
          exact apart current u here' (by simpa using param) leads resolves here.symm
        have same : m.resolve? current = some d :=
          resolve?_eq_some.2 ⟨isNamed, here ▸ (resolve?_eq_some.1 known).2⟩
        exact .inl (List.mem_append_left _ (mem_links.2 ⟨d, same, listed⟩))
      · exact kept (thorough.links u d leads known before v listed)

/-- A thorough search with nothing left to look at has looked at everything. -/
theorem Thorough.not_assignable (thorough : s.Thorough m t target) (done : s.pending = []) :
    ¬m.Assignable t target := by
  have looked {u : TypeRef} (covers : s.Covers target u) :
      u.definitionName ∈ s.seen ∧ (u == target) = false := by
    obtain waits | looked := covers
    · rw [done] at waits
      cases waits
    · exact looked
  have all {u : TypeRef} (leads : m.Supertype t u) :
      u.definitionName ∈ s.seen ∧ (u == target) = false := by
    induction leads with
    | self => exact looked thorough.start
    | next leads known listed ih =>
      exact looked (thorough.links _ _ leads known ih.1 _ listed)
  rintro ⟨u, leads, same⟩
  rw [(all leads).2] at same
  cases same

/-! ## What a search answers -/

theorem Answers.assignable (answers : Answers m target s answer) (sound : s.Sound m t)
    (yes : answer = true) : m.Assignable t target := by
  induction answers with
  | exhausted => cases yes
  | found waits same => exact ⟨_, sound _ waits, same⟩
  | looked looks _ ih => exact ih (looks.sound sound) yes

theorem Answers.not_assignable (apart : m.ParamsApart t) (answers : Answers m target s answer)
    (sound : s.Sound m t) (thorough : s.Thorough m t target) (no : answer = false) :
    ¬m.Assignable t target := by
  induction answers with
  | exhausted => exact thorough.not_assignable rfl
  | found => cases no
  | looked looks _ ih => exact ih (looks.sound sound) (looks.thorough apart sound thorough) no

end TypeSearch

open TypeSearch in
/-- The search ends in any order and answers yes only for what the reference leads to. If parameters
are apart from definitions it answers yes for all of that, and so does any other order. -/
theorem Module.isAssignable_iff (m : Module) (t target : TypeRef) :
    (WellFounded fun s' s => Looks m target s s') ∧
      (m.isAssignable t target = true → m.Assignable t target) ∧
      (m.ParamsApart t → (m.isAssignable t target = true ↔ m.Assignable t target) ∧
        ∀ answer, Answers m target (start t) answer ↔ answer = m.isAssignable t target) := by
  have own : Answers m target (start t) (m.isAssignable t target) :=
    answers_reaches m target [] [t]
  refine ⟨wellFounded_looks m target, own.assignable (sound_start m t), fun apart => ?_⟩
  have right (answer : Bool) (answers : Answers m target (start t) answer) :
      answer = true ↔ m.Assignable t target := by
    refine ⟨answers.assignable (sound_start m t), fun assignable => ?_⟩
    by_contra no
    exact answers.not_assignable apart (sound_start m t) (thorough_start m t target)
      (by simpa using no) assignable
  refine ⟨right _ own, fun answer => ⟨fun answers => ?_, fun same => same ▸ own⟩⟩
  rw [Bool.eq_iff_iff, right answer answers, right _ own]

namespace Sample

def boxOf (element : TypeRef) : TypeRef := .named "App" "Box`1" none [element]

/-- A box is a cell that holds boxes of strings, for whatever it is a box of. -/
def boxes : Module where
  name := "App"
  types := [
    { ns := "App", name := "Box`1", generics := ["T"],
      base := some (.named "App" "Cell`1" none [.param "T"]), interfaces := [.param "T"] },
    { ns := "App", name := "Cell`1", generics := ["T"],
      interfaces := [.plain "App" "ICell", boxOf (.plain "System" "String")] },
    { ns := "App", name := "ICell", interfaces := [boxOf (.plain "System" "Object")] }]
  names_nodup := by decide +kernel

/-- Two types with the same interfaces in either order, a type of the name `T` and a parameter of
that name. -/
def namesakes : Module where
  name := "App"
  types := [
    { ns := "", name := "T", interfaces := [.plain "App" "IGoal"] },
    { ns := "App", name := "TypeFirst", generics := ["T"],
      interfaces := [.plain "" "T", .param "T"] },
    { ns := "App", name := "ParamFirst", generics := ["T"],
      interfaces := [.param "T", .plain "" "T"] }]
  names_nodup := by decide +kernel

end Sample

open Sample TypeSearch in
/-- The name of the box has been looked at when the other box turns up, which is found all the
same. -/
theorem Module.isAssignable_iff_boxes :
    boxes.ParamsApart (boxOf (.plain "System" "Int64")) ∧
      boxes.Assignable (boxOf (.plain "System" "Int64")) (boxOf (.plain "System" "String")) ∧
      ∀ answer, Answers boxes (boxOf (.plain "System" "String"))
        (start (boxOf (.plain "System" "Int64"))) answer → answer = true := by
  have apart : boxes.ParamsApart (boxOf (.plain "System" "Int64")) :=
    paramsApart_of_unnamed (by decide +kernel) (by decide +kernel)
  have yes : boxes.isAssignable (boxOf (.plain "System" "Int64"))
      (boxOf (.plain "System" "String")) = true := by decide +kernel
  obtain ⟨_, sound, complete⟩ := isAssignable_iff boxes (boxOf (.plain "System" "Int64"))
    (boxOf (.plain "System" "String"))
  exact ⟨apart, sound yes, fun answer answers => ((complete apart).2 answer |>.1 answers).trans yes⟩

open Sample in
/-- The parameter is looked at first and takes up the name of the type, whose interface is not
found then; in the other order it is. -/
theorem Module.isAssignable_hidden :
    (¬∀ (m : Module) (t target : TypeRef),
      m.isAssignable t target = true ↔ m.Assignable t target) ∧
      namesakes.isAssignable (.plain "App" "TypeFirst") (.plain "App" "IGoal") = false ∧
      namesakes.isAssignable (.plain "App" "ParamFirst") (.plain "App" "IGoal") = true := by
  have missed : namesakes.isAssignable (.plain "App" "TypeFirst") (.plain "App" "IGoal") = false := by
    decide +kernel
  refine ⟨fun claimed => ?_, missed, by decide +kernel⟩
  have first : namesakes.Supertype (.plain "App" "TypeFirst") (.plain "" "T") :=
    .next .self (resolve?_eq_some.2 ⟨rfl, rfl⟩) List.mem_cons_self
  have goal : namesakes.Supertype (.plain "App" "TypeFirst") (.plain "App" "IGoal") :=
    .next first (resolve?_eq_some.2 ⟨rfl, rfl⟩) List.mem_cons_self
  have found := (claimed _ _ (.plain "App" "IGoal")).2 ⟨_, goal, by decide +kernel⟩
  rw [missed] at found
  cases found

end ReleaseWeaver
