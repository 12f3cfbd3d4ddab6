import ReleaseWeaver.Proofs.Machine.Runs
import ReleaseWeaver.Proofs.Metadata.Chains

/-
  How a call finds its code, told by the names up a base chain. A class without native code for
  the method and without a method that answers is passed, whatever its distance; a class that has
  one method that answers stops the search with that method's body. Whether a call is dispatched
  is settled by the methods that answer from its declaring type upwards.
-/

namespace ReleaseWeaver

namespace Module

variable {m : Module} {name other : String} {k : Nat}

theorem above_succ : m.above (k + 1) name = some other ↔
    ∃ t base, m.findType? name = some t ∧ m.baseOf? t = some base ∧
      m.above k base.definitionName = some other := by
  constructor
  · intro there
    obtain ⟨a, reached, named⟩ := Option.map_eq_some_iff.1 there
    obtain ⟨t, known, climbed⟩ := Option.bind_eq_some_iff.1 reached
    obtain ⟨base, extended, further⟩ := Option.bind_eq_some_iff.1 climbed
    refine ⟨t, base, known, extended, ?_⟩
    rw [above_of_known (findType?_of_mem (mem_types_of_baseOf? extended)), further, Option.map_some,
      named]
  · rintro ⟨t, base, known, extended, there⟩
    rw [above_of_known (findType?_of_mem (mem_types_of_baseOf? extended))] at there
    rw [above_of_known known, climb, extended, Option.bind_some, there]

/-- A name on a chain is that of a type. -/
theorem known_of_above (there : m.above k name = some other) : ∃ t, m.findType? other = some t := by
  obtain ⟨a, reached, named⟩ := Option.map_eq_some_iff.1 there
  obtain ⟨t, known, climbed⟩ := Option.bind_eq_some_iff.1 reached
  exact ⟨a, named ▸ findType?_of_mem (mem_types_of_climb (mem_of_findType? known).1 climbed)⟩

/-- A chain that leads anywhere starts at its own type. -/
theorem above_self (there : m.above k name = some other) : m.above 0 name = some name := by
  obtain ⟨a, reached, _⟩ := Option.map_eq_some_iff.1 there
  obtain ⟨t, known, _⟩ := Option.bind_eq_some_iff.1 reached
  exact above_zero known

/-- The first type of a name up the chain is fewer steps away than there are types. -/
theorem above_lt (there : m.above k name = some other)
    (first : ∀ j < k, m.above j name ≠ some other) : k < m.types.length := by
  obtain ⟨a, reached, named⟩ := Option.map_eq_some_iff.1 there
  obtain ⟨t, known, climbed⟩ := Option.bind_eq_some_iff.1 reached
  refine climb_lt (fun b => b.definitionName = other) (mem_of_findType? known).1 climbed named ?_
  intro j before b climbed' same
  refine first j before ?_
  rw [above_of_known known, climbed', Option.map_some, same]

/-- The methods of a type that a call of a name with so many arguments can find. -/
def answering (m : Module) (typeName name : String) (count : Nat) : List MethodKey :=
  match m.findType? typeName with
  | none => []
  | some t => (t.keyedMethods.filter fun (_, d) => d.answersTo name count).map Prod.fst

theorem mem_answering {typeName : String} {count : Nat} {key : MethodKey} :
    key ∈ m.answering typeName name count ↔ key.owner = typeName ∧
      ∃ d, m.findMethod? key = some d ∧ d.answersTo name count = true := by
  constructor
  · intro listed
    unfold answering at listed
    split at listed
    · cases listed
    · next t known =>
      obtain ⟨⟨_, d⟩, inside, rfl⟩ := List.mem_map.1 listed
      obtain ⟨keyed, answers⟩ := List.mem_filter.1 inside
      obtain ⟨owned, there⟩ := TypeDef.mem_keyedMethods.1 keyed
      have named := owned.trans (mem_of_findType? known).2
      exact ⟨named, d, findMethod?_eq_some.2 ⟨t, named ▸ known, there⟩, answers⟩
  · rintro ⟨rfl, d, found, answers⟩
    obtain ⟨t, known, there⟩ := findMethod?_eq_some.1 found
    have keyed := TypeDef.mem_keyedMethods.2 ⟨(mem_of_findType? known).2.symm, there⟩
    unfold answering
    rw [known]
    exact List.mem_map.2 ⟨(key, d), List.mem_filter.2 ⟨keyed, answers⟩, rfl⟩

end Module

namespace Machine.Program

variable {p : Program} {m : Module} {className other name : String} {count fuel k : Nat}
  {key : MethodKey} {d : MethodDef} {t : TypeDef}

/-! ## The code of a class -/

/-- The methods of a class that a call can find. -/
theorem mem_answering_of_keyed (known : m.findType? className = some t)
    (keyed : (key, d) ∈ t.keyedMethods) (answers : d.answersTo name count = true) :
    key ∈ m.answering className name count ∧ m.findMethod? key = some d := by
  obtain ⟨owned, there⟩ := TypeDef.mem_keyedMethods.1 keyed
  have named := owned.trans (Module.mem_of_findType? known).2
  have found := Module.findMethod?_eq_some.2 ⟨t, named ▸ known, there⟩
  exact ⟨Module.mem_answering.2 ⟨named, d, found, answers⟩, found⟩

theorem bodyIn?_eq_none (known : m.findType? className = some t)
    (mute : m.answering className name count = []) : bodyIn? t name count = none := by
  refine List.findSome?_eq_none_iff.2 fun (key, d) keyed => if_neg fun answers => ?_
  have listed := (mem_answering_of_keyed known keyed answers).1
  rw [mute] at listed
  cases listed

/-- The only method that answers is the one whose body is found. -/
theorem bodyIn?_of_sole {b : Body} (known : m.findType? key.owner = some t)
    (found : m.findMethod? key = some d) (answers : d.answersTo name count = true)
    (body : d.body = some b) (sole : ∀ other ∈ m.answering key.owner name count, other = key) :
    bodyIn? t name count = some (.body key d b) := by
  cases here : bodyIn? t name count with
  | none =>
    obtain ⟨t', known', there⟩ := Module.findMethod?_eq_some.1 found
    rw [known] at known'
    cases known'
    have keyed := TypeDef.mem_keyedMethods.2 ⟨(Module.mem_of_findType? known).2.symm, there⟩
    have nothing := List.findSome?_eq_none_iff.1 here (key, d) keyed
    dsimp only at nothing
    rw [if_pos answers, body] at nothing
    cases nothing
  | some callee =>
    obtain ⟨⟨other, d'⟩, keyed, stops⟩ := List.exists_of_findSome?_eq_some here
    dsimp only at stops
    split at stops
    · next answers' =>
      obtain ⟨listed, found'⟩ := mem_answering_of_keyed known keyed answers'
      obtain rfl := sole other listed
      rw [found] at found'
      cases found'
      rw [body] at stops
      exact stops.symm
    · cases stops

/-! ## Up a chain -/

/-- A class that has nothing to answer a call with. -/
def LeavesOut (p : Program) (name : String) (count : Nat) (className : String) : Prop :=
  p.natives (nativeName className name) = none ∧ p.module.answering className name count = []

theorem lookupIn_above (there : p.module.above k className = some other)
    (passes : ∀ j < k, ∀ c, p.module.above j className = some c → p.LeavesOut name count c) :
    p.lookupIn name count (fuel + k) className = p.lookupIn name count fuel other := by
  induction k generalizing className with
  | zero =>
    rw [Nat.add_zero, Option.some.inj (there.symm.trans (Module.above_self there))]
  | succ k ih =>
    obtain ⟨t, base, known, extended, further⟩ := Module.above_succ.1 there
    obtain ⟨bare, mute⟩ := passes 0 (Nat.zero_lt_succ k) className (Module.above_zero known)
    rw [← Nat.add_assoc, lookupIn, bare, known, Option.bind_some, bodyIn?_eq_none known mute,
      extended, Option.bind_some]
    refine ih further fun j before c reached => passes (j + 1) (Nat.succ_lt_succ before) c ?_
    exact Module.above_succ.2 ⟨t, base, known, extended, reached⟩

/-- Where the classes on the way are passed, the code is that of the class they lead to. -/
theorem lookup_above (there : p.module.above k className = some other)
    (passes : ∀ j < k, ∀ c, p.module.above j className = some c → p.LeavesOut name count c) :
    ∃ fuel, p.lookup className name count = p.lookupIn name count (fuel + 1) other := by
  obtain ⟨first, bound, reached, least⟩ :=
    exists_least (p := fun j => p.module.above j className = some other) there
  have inside := Module.above_lt reached least
  obtain ⟨fuel, enough⟩ := Nat.exists_eq_add_of_lt inside
  refine ⟨fuel + 1, ?_⟩
  rw [lookup, enough, show first + fuel + 1 + 1 = fuel + 1 + 1 + first by omega]
  exact lookupIn_above reached fun j before => passes j (by omega)

/-- A call finds the only method that answers in the first class that is not passed. -/
theorem lookup_eq_body {b : Body} (there : p.module.above k className = some key.owner)
    (passes : ∀ j < k, ∀ c, p.module.above j className = some c → p.LeavesOut name count c)
    (bare : p.natives (nativeName key.owner name) = none)
    (found : p.module.findMethod? key = some d) (answers : d.answersTo name count = true)
    (body : d.body = some b)
    (sole : ∀ other ∈ p.module.answering key.owner name count, other = key) :
    p.lookup className name count = some (.body key d b) := by
  obtain ⟨fuel, same⟩ := lookup_above there passes
  obtain ⟨t, known⟩ := Module.known_of_above there
  rw [same, lookupIn, bare, known, Option.bind_some, bodyIn?_of_sole known found answers body sole]

/-- A call is dispatched if each method that answers is virtual, as far as the first of them. -/
theorem isVirtualIn_above (there : m.above k className = some other)
    (answered : m.answering other name count ≠ [])
    (virtual : ∀ j ≤ k, ∀ c, m.above j className = some c → ∀ key ∈ m.answering c name count,
      ∀ d, m.findMethod? key = some d → d.flags.isVirtual = true) :
    isVirtualIn m name count fuel className = true := by
  induction fuel generalizing k className with
  | zero => rfl
  | succ fuel ih =>
    rw [isVirtualIn]
    split
    · rfl
    · next t known =>
      split
      · rfl
      · split
        · next d first =>
          obtain ⟨i, inside⟩ := List.mem_iff_getElem?.1 (List.mem_of_find?_eq_some first)
          have keyed : (⟨t.definitionName, i⟩, d) ∈ t.keyedMethods :=
            TypeDef.mem_keyedMethods.2 ⟨rfl, inside⟩
          have answers := List.find?_some (p := fun d : MethodDef => d.answersTo name count) first
          obtain ⟨listed, found⟩ := mem_answering_of_keyed known keyed answers
          exact virtual 0 (Nat.zero_le k) className (Module.above_zero known) _ listed d found
        · next none =>
          cases k with
          | zero =>
            rw [Module.above_zero known] at there
            cases there
            refine absurd (List.eq_nil_iff_forall_not_mem.2 fun key listed => ?_) answered
            obtain ⟨rfl, d, found, answers⟩ := Module.mem_answering.1 listed
            obtain ⟨t', known', inside⟩ := Module.findMethod?_eq_some.1 found
            rw [known] at known'
            cases known'
            exact List.find?_eq_none.1 none d (List.mem_of_getElem? inside) answers
          | succ k =>
            obtain ⟨t', base, known', extended, further⟩ := Module.above_succ.1 there
            rw [known] at known'
            cases known'
            rw [extended]
            refine ih further fun j bound c reached => virtual (j + 1) (by omega) c ?_
            exact Module.above_succ.2 ⟨t, base, known, extended, reached⟩

/-! ## Calls -/

variable {memory : Memory} {callers : List Caller} {c : Call}

theorem lookup_native {code : NativeCode}
    (known : p.natives (nativeName className name) = some code) (params : Nat) :
    p.lookup className name params = some (.native code) := by
  rw [lookup, lookupIn, known]

/-- A call that finds native code. -/
theorem invoke_native {code : NativeCode} (start : p.startClass memory.heap c = .ok className)
    (known : p.natives (nativeName className c.method.name) = some code) :
    p.invoke memory callers c = runNative memory callers (code memory.heap c.args) := by
  rw [invoke, Program.callee, start]
  dsimp only
  rw [lookup_native known]
  rfl

/-- A call that finds a body. -/
theorem invoke_body {b : Body} (start : p.startClass memory.heap c = .ok className)
    (found : p.lookup className c.method.name c.method.params.length = some (.body key d b)) :
    p.invoke memory callers c =
      .running ⟨memory, .frame (Frame.start key d b c.args), callers⟩ := by
  rw [invoke, Program.callee, start]
  dsimp only
  rw [found]
  rfl

theorem startClass_static {h : Heap} (static : c.isVirtual = false) :
    p.startClass h c = .ok c.method.declaring.definitionName := by
  rw [startClass, static]
  rfl

/-- A call that is dispatched starts at the class of the receiver. -/
theorem startClass_dispatched {h : Heap} {n : Nat} {o : Object} (virtual : c.isVirtual = true)
    (instance_method : c.method.hasThis = true) (dispatched : p.isVirtualMethod c.method = true)
    (receiver : c.args.head? = some (.object n)) (there : h.get? n = some o) :
    p.startClass h c = .ok o.className := by
  obtain ⟨rest, args⟩ := List.head?_eq_some_iff.1 receiver
  rw [startClass, virtual, instance_method, dispatched, args]
  show (h.object (.object n)).map (fun known => known.2.className) = _
  rw [Heap.object, there]
  rfl

/-! ## Steps of a body -/

variable {f f' : Frame} {i : Instr}

theorem step_next {heap : Heap} (here : f.current? = some i)
    (enough : memory.steps + 1 ≤ p.stepLimit) (run : f.exec memory.heap i = .ok (.next f' heap)) :
    p.step ⟨memory, .frame f, callers⟩ =
      .running ⟨{ heap, steps := memory.steps + 1 }, .frame f', callers⟩ := by
  show p.stepFrame memory callers f = _
  rw [stepFrame, here]
  dsimp only
  rw [if_neg (Nat.not_lt.2 enough), run]

theorem step_invoke (here : f.current? = some i) (enough : memory.steps + 1 ≤ p.stepLimit)
    (run : f.exec memory.heap i = .ok (.invoke f' c)) :
    p.step ⟨memory, .frame f, callers⟩ =
      p.invoke { memory with steps := memory.steps + 1 }
        (.frame f' c.method.returns.isSome :: callers) c := by
  show p.stepFrame memory callers f = _
  rw [stepFrame, here]
  dsimp only
  rw [if_neg (Nat.not_lt.2 enough), run]

end Machine.Program

end ReleaseWeaver
