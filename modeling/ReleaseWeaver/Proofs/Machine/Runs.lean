import ReleaseWeaver.Machine.State
import ReleaseWeaver.Proofs.Metadata.Lookup

/-
  Runs of the machine. What every step keeps holds along a whole run, and the end of a run is the
  end that some number of steps reaches. The code that a call finds is native code of the program
  or a body of its module.
-/

namespace ReleaseWeaver.Machine.Program

variable {p : Program}

/-- What holds at the start and is kept by every step holds as far as a run comes. -/
theorem runFor_induction {good : Progress → Prop}
    (keep : ∀ s, good (.running s) → good (p.step s)) (count : Nat) {progress : Progress}
    (start : good progress) : good (p.runFor count progress) := by
  induction count generalizing progress with
  | zero => exact start
  | succ count ih =>
    cases progress with
    | running s => exact ih (keep s start)
    | finished m outcome => exact start

theorem outcome?_eq_some {progress : Progress} {m : Memory} {outcome : Outcome} :
    p.outcome? progress = some (m, outcome) ↔
      ∃ count, p.runFor count progress = .finished m outcome := by
  refine ⟨fun ended => ?_, fun reached => ?_⟩
  · refine outcome?.partial_correctness p (fun progress r =>
      ∃ count, p.runFor count progress = .finished r.1 r.2) ?_ progress (m, outcome) ended
    intro later ih progress r ended
    cases progress with
    | running s =>
      obtain ⟨count, rest⟩ := ih (p.step s) r ended
      exact ⟨count + 1, rest⟩
    | finished m outcome =>
      cases ended
      exact ⟨0, rfl⟩
  · obtain ⟨count, ended⟩ := reached
    induction count generalizing progress with
    | zero =>
      rw [show progress = .finished m outcome from ended, outcome?]
    | succ count ih =>
      cases progress with
      | running s =>
        rw [outcome?]
        exact ih ended
      | finished m' outcome' =>
        cases ended
        rw [outcome?]

/-! ## Code of the module -/

/-- A method of the module and its body. -/
def HasBody (m : Module) (key : MethodKey) (d : MethodDef) (b : Body) : Prop :=
  ∃ t ∈ m.types, (key, d) ∈ t.keyedMethods ∧ d.body = some b

theorem hasBody_iff {m : Module} {key : MethodKey} {d : MethodDef} {b : Body} :
    HasBody m key d b ↔ m.findMethod? key = some d ∧ d.body = some b := by
  constructor
  · rintro ⟨t, listed, keyed, body⟩
    obtain ⟨owned, there⟩ := TypeDef.mem_keyedMethods.1 keyed
    exact ⟨Module.findMethod?_eq_some.2 ⟨t, owned ▸ Module.findType?_of_mem listed, there⟩, body⟩
  · rintro ⟨found, body⟩
    obtain ⟨t, known, there⟩ := Module.findMethod?_eq_some.1 found
    obtain ⟨listed, named⟩ := Module.mem_of_findType? known
    exact ⟨t, listed, TypeDef.mem_keyedMethods.2 ⟨named.symm, there⟩, body⟩

theorem bodyIn?_eq_some {t : TypeDef} {name : String} {count : Nat} {callee : Callee}
    (h : bodyIn? t name count = some callee) :
    ∃ key d b, callee = .body key d b ∧ (key, d) ∈ t.keyedMethods ∧ d.body = some b := by
  obtain ⟨⟨key, d⟩, keyed, found⟩ := List.exists_of_findSome?_eq_some h
  dsimp only at found
  split at found
  · obtain ⟨b, body, rfl⟩ := Option.map_eq_some_iff.1 found
    exact ⟨key, d, b, rfl, keyed, body⟩
  · cases found

theorem lookupIn_eq_some {name : String} {params fuel : Nat} {className : String}
    {callee : Callee} (h : p.lookupIn name params fuel className = some callee) :
    (∃ owner code, callee = .native code ∧ p.natives (nativeName owner name) = some code) ∨
      ∃ key d b, callee = .body key d b ∧ HasBody p.module key d b := by
  induction fuel generalizing className with
  | zero => cases h
  | succ fuel ih =>
    unfold lookupIn at h
    split at h
    · next code known =>
      cases h
      exact .inl ⟨className, code, rfl, known⟩
    · obtain ⟨t, found, rest⟩ := Option.bind_eq_some_iff.1 h
      split at rest
      · next callee' here =>
        cases rest
        obtain ⟨key, d, b, rfl, keyed, body⟩ := bodyIn?_eq_some here
        exact .inr ⟨key, d, b, rfl, t, (Module.mem_of_findType? found).1, keyed, body⟩
      · obtain ⟨base, _, above⟩ := Option.bind_eq_some_iff.1 rest
        exact ih above

theorem lookup_eq_some {className name : String} {params : Nat} {callee : Callee}
    (h : p.lookup className name params = some callee) :
    (∃ owner code, callee = .native code ∧ p.natives (nativeName owner name) = some code) ∨
      ∃ key d b, callee = .body key d b ∧ HasBody p.module key d b :=
  lookupIn_eq_some h

theorem callee_eq_ok {h : Heap} {c : Call} {callee : Callee} (found : p.callee h c = .ok callee) :
    ∃ className, p.startClass h c = .ok className ∧
      p.lookup className c.method.name c.method.params.length = some callee := by
  unfold Program.callee at found
  split at found
  · cases found
  · next className start =>
    split at found
    · next callee' known =>
      cases found
      exact ⟨className, start, known⟩
    · cases found

end ReleaseWeaver.Machine.Program
