import ReleaseWeaver.Proofs.Machine.Prolonging
import ReleaseWeaver.Weave.Teardown

/-
  What a run of releases does at its head: getter by getter, the value that a getter gives is
  released before the next getter is called. The run comes to its end if every getter and every
  release returns, whatever else is on the stack, and leaves what was there below. Where releases
  leave their values released and take none back, all the values are released in the end.
  Main statements: `Program.goes_releases` and `Program.exists_releasesEach`.
-/

namespace ReleaseWeaver

/-- The lines that release the values of some getters one after the other. -/
def releaseEach (getters : List MethodRef) (release : MethodRef) : List Instr :=
  getters.flatMap fun getter => releaseProperty getter release

theorem releaseEach_cons (getter : MethodRef) (getters : List MethodRef) (release : MethodRef) :
    releaseEach (getter :: getters) release =
      releaseProperty getter release ++ releaseEach getters release :=
  List.flatMap_cons

namespace Machine

/-- A call of a method without parameters for a value; a static method takes nothing. -/
def Call.on (method : MethodRef) (v : Value) (isVirtual : Bool) : Call where
  method := method
  args := [v].take method.arity
  isVirtual := isVirtual

/-- What is released stays released. -/
def Heap.KeepsReleased (h h' : Heap) : Prop :=
  ∀ v, h.isReleased v = .ok true → h'.isReleased v = .ok true

namespace Program

/-- The getters are called for an object one after the other, and the value of each is released
before the next one is called. -/
inductive ReleasesEach (p : Program) (release : MethodRef) (this : Value) :
    Heap → List MethodRef → List Value → Heap → Prop where
  | done {h} : p.ReleasesEach release this h [] [] h
  | step {h h₁ h₂ h' getter getters v values result} :
      p.Settles h (.invoke (.on getter this false)) h₁ (some v) →
      p.Settles h₁ (.invoke (.on release v true)) h₂ result →
      p.ReleasesEach release this h₂ getters values h' →
      p.ReleasesEach release this h (getter :: getters) (v :: values) h'

/-- In all these heaps a getter without parameters gives a value for the object, which is not null,
and the value's release returns. -/
structure Releases (p : Program) (release : MethodRef) (this : Value) (good : Heap → Prop)
    (getter : MethodRef) : Prop where
  plain : getter.params = []
  gives : getter.returns.isSome = true
  each : ∀ h, good h → ∃ v h₁ h₂ result, v ≠ .null ∧
    p.Settles h (.invoke (.on getter this false)) h₁ (some v) ∧
    p.Settles h₁ (.invoke (.on release v true)) h₂ result ∧ good h₂

/-- In all these heaps the release of a getter's value leaves it released, and getter and release
take back no release. -/
def Lasts (p : Program) (release : MethodRef) (this : Value) (good : Heap → Prop)
    (getter : MethodRef) : Prop :=
  ∀ h v h₁ h₂ result, good h → p.Settles h (.invoke (.on getter this false)) h₁ (some v) →
    p.Settles h₁ (.invoke (.on release v true)) h₂ result →
    h₂.isReleased v = .ok true ∧ h.KeepsReleased h₂

variable {p : Program} {release getter method : MethodRef} {getters : List MethodRef}
  {this v : Value} {values : List Value} {h h₁ h₂ h' : Heap} {good : Heap → Prop}
  {result : Option Value} {f : Frame} (callers : List Caller) (steps : Nat)

theorem ReleasesEach.length (releases : p.ReleasesEach release this h getters values h') :
    values.length = getters.length := by
  induction releases with
  | done => rfl
  | step _ _ _ ih => rw [List.length_cons, List.length_cons, ih]

/-- Where every getter gives a value that can be released, the values are released one after the
other, and all of them are in the end if their releases last. -/
theorem exists_releasesEach (each : ∀ getter ∈ getters, p.Releases release this good getter)
    (start : good h) : ∃ values h', p.ReleasesEach release this h getters values h' ∧ good h' ∧
      (∀ v ∈ values, v ≠ .null) ∧
      ((∀ getter ∈ getters, p.Lasts release this good getter) →
        (∀ v ∈ values, h'.isReleased v = .ok true) ∧ h.KeepsReleased h') := by
  induction getters generalizing h with
  | nil => exact ⟨[], h, .done, start, nofun, fun _ => ⟨nofun, fun _ kept => kept⟩⟩
  | cons getter getters ih =>
    obtain ⟨first, rest⟩ := List.forall_mem_cons.1 each
    obtain ⟨v, h₁, h₂, result, solid, gets, released, still⟩ := first.each h start
    obtain ⟨values, h', releases, good', filled, all⟩ := ih rest still
    refine ⟨v :: values, h', .step gets released releases, good',
      List.forall_mem_cons.2 ⟨solid, filled⟩, fun last => ?_⟩
    obtain ⟨lasts, last⟩ := List.forall_mem_cons.1 last
    obtain ⟨isReleased, kept⟩ := lasts h v h₁ h₂ result start gets released
    obtain ⟨all, kept'⟩ := all last
    exact ⟨List.forall_mem_cons.2 ⟨kept' v isReleased, all⟩, fun w before => kept' w (kept w before)⟩

/-! ## Calls for the value on top -/

theorem take?_cons {n : Nat} (few : n ≤ 1) (v : Value) (rest : List Value) :
    Frame.take? (v :: rest) n = some ([v].take n, (v :: rest).drop n) := by
  obtain rfl | rfl : n = 0 ∨ n = 1 := by omega
  · rfl
  · rw [Frame.take?, if_pos (by simp)]
    rfl

theorem suffix_drop_cons {n : Nat} (few : n ≤ 1) (v : Value) (rest : List Value) :
    rest <:+ (v :: rest).drop n := by
  obtain rfl | rfl : n = 0 ∨ n = 1 := by omega
  · exact List.suffix_cons v rest
  · exact List.suffix_refl rest

theorem arity_le_one (plain : method.params = []) : method.arity ≤ 1 := by
  rw [MethodRef.arity, plain]
  cases method.hasThis <;> decide

/-- Where the next line calls a method without parameters that returns, the activation goes on
behind the call, and nothing below the top of the stack has changed. -/
theorem goes_call {isVirtual : Bool} {rest : List Value}
    (plain : method.params = []) (stack : f.stack = v :: rest)
    (here : f.body.instrs[f.position]? = some (.invoke method isVirtual))
    (settles : p.Settles h (.invoke (.on method v isVirtual)) h' result) :
    ∃ steps' stack, p.Goes ⟨⟨h, steps⟩, .frame f, callers⟩
        ⟨⟨h', steps'⟩, .frame { f with stack, position := f.position + 1 }, callers⟩ ∧
      rest <:+ stack ∧ (method.returns.isSome = true → ∃ below, rest <:+ below ∧
        stack = result.getD .null :: below) := by
  have few := arity_le_one plain
  have run : f.exec h (.invoke method isVirtual) =
      .ok (.invoke (f.continueWith ((v :: rest).drop method.arity))
        (.on method v isVirtual)) := by
    rw [Frame.exec_invoke, stack, take?_cons few]
    rfl
  have line : f.current? = some (.invoke method isVirtual) := f.current?_eq.trans here
  obtain ⟨steps', goes⟩ := Goes.invoke (m := ⟨h, steps⟩) line run settles
  have accepts : (f.continueWith ((v :: rest).drop method.arity)).accept method.returns.isSome
      result = { f with
        stack := (if method.returns.isSome = true then [result.getD .null] else []) ++
          (v :: rest).drop method.arity
        position := f.position + 1 } := by
    cases method.returns.isSome <;> rfl
  have below := suffix_drop_cons few v rest
  refine ⟨steps', _, accepts ▸ goes, below.trans (List.suffix_append _ _), fun returns => ?_⟩
  exact ⟨_, below, by rw [if_pos returns]; rfl⟩

/-- A line that loads the object. -/
theorem goes_ldthis (this : f.args[0]? = some v)
    (here : f.body.instrs[f.position]? = some .ldthis) :
    p.Goes ⟨⟨h, steps⟩, .frame f, callers⟩
      ⟨⟨h, steps + 1⟩, .frame (f.continueWith (v :: f.stack)), callers⟩ := by
  refine Goes.next (m := ⟨h, steps⟩) (f.current?_eq.trans here) ?_
  rw [Instr.ldthis, Frame.exec_ldarg, show (0 : UInt16).toNat = 0 from rfl, this]

/-! ## The run of releases -/

/-- The lines of one release. -/
theorem goes_release (this : f.args[0]? = some v)
    (plain : getter.params = []) (gives : getter.returns.isSome = true) (plain' : release.params = [])
    (lines : ∀ (k : Nat) i, (releaseProperty getter release)[k]? = some i →
      f.body.instrs[f.position + k]? = some i) {w : Value}
    (gets : p.Settles h (.invoke (.on getter v false)) h₁ (some w))
    (released : p.Settles h₁ (.invoke (.on release w true)) h₂ result) :
    ∃ steps' stack, p.Goes ⟨⟨h, steps⟩, .frame f, callers⟩
        ⟨⟨h₂, steps'⟩, .frame { f with stack, position := f.position + 3 }, callers⟩ ∧
      f.stack <:+ stack := by
  have loads : p.Goes ⟨⟨h, steps⟩, .frame f, callers⟩ _ :=
    goes_ldthis callers steps this (lines 0 _ rfl)
  obtain ⟨steps₁, stack₁, calls, _, pushes⟩ := goes_call callers (steps + 1) plain
    (f := f.continueWith (v :: f.stack)) rfl (lines 1 _ rfl) gets
  obtain ⟨below, kept, rfl⟩ := pushes gives
  obtain ⟨steps₂, stack₂, releases, kept', _⟩ := goes_call callers steps₁ plain'
    (f := { f with stack := w :: below, position := f.position + 2 }) rfl (lines 2 _ rfl) released
  exact ⟨steps₂, stack₂, (loads.trans calls).trans releases, kept.trans kept'⟩

/-- The lines of all releases. -/
theorem goes_releases
    (releases : p.ReleasesEach release this h getters values h') (own : f.args[0]? = some this)
    (fits : ∀ getter ∈ getters, getter.params = [] ∧ getter.returns.isSome = true)
    (plain : release.params = [])
    (lines : ∀ (k : Nat) i, (releaseEach getters release)[k]? = some i →
      f.body.instrs[f.position + k]? = some i) :
    ∃ steps' stack, p.Goes ⟨⟨h, steps⟩, .frame f, callers⟩ ⟨⟨h', steps'⟩,
        .frame { f with stack, position := f.position + (releaseEach getters release).length },
        callers⟩ ∧
      f.stack <:+ stack := by
  induction releases generalizing f steps with
  | done => exact ⟨steps, f.stack, .refl _, List.suffix_refl _⟩
  | @step h h₁ h₂ h' getter getters v values result gets released _ ih =>
    obtain ⟨⟨plain₁, gives⟩, fits⟩ := List.forall_mem_cons.1 fits
    have length : (releaseProperty getter release).length = 3 := rfl
    obtain ⟨steps₁, stack₁, first, kept⟩ := goes_release callers steps own plain₁ gives plain
      (fun k i here => lines k i (by
        rw [releaseEach_cons, List.getElem?_append_left (List.getElem?_eq_some_iff.1 here).1, here]))
      gets released
    obtain ⟨steps₂, stack₂, rest, kept'⟩ := ih steps₁
      (f := { f with stack := stack₁, position := f.position + 3 }) own fits
      fun k i here => by
        have line := lines (3 + k) i (by
          rw [releaseEach_cons, List.getElem?_append_right (by rw [length]; omega), length,
            Nat.add_sub_cancel_left, here])
        rwa [← Nat.add_assoc] at line
    refine ⟨steps₂, stack₂, ?_, kept.trans kept'⟩
    rw [releaseEach_cons, List.length_append, length, ← Nat.add_assoc]
    exact first.trans rest

/-- A request that comes to the head of a run of releases returns, if each of them does. -/
theorem ReleasesEach.settles {h₀ : Heap} {request : Request} {s : State}
    (releases : p.ReleasesEach release this h getters values h')
    (starts : p.perform ⟨h₀, 0⟩ [] request = .running s)
    (arrives : p.Goes s ⟨⟨h, steps⟩, .frame f, []⟩) (own : f.args[0]? = some this)
    (fits : ∀ getter ∈ getters, getter.params = [] ∧ getter.returns.isSome = true)
    (plain : release.params = []) (returns : f.returnsValue = true → f.stack ≠ [])
    (lines : ∀ (k : Nat) i, (releaseEach getters release ++ [.ret])[k]? = some i →
      f.body.instrs[f.position + k]? = some i) :
    ∃ result, p.Settles h₀ request h' result := by
  obtain ⟨steps', stack, goes, kept⟩ := goes_releases [] steps releases own fits plain
    fun k i here => lines k i (by
      rw [List.getElem?_append_left (List.getElem?_eq_some_iff.1 here).1, here])
  have last := lines _ .ret List.getElem?_concat_length
  let f' : Frame := { f with stack, position := f.position + (releaseEach getters release).length }
  have leaves : ∃ result, f'.exec h' .ret = .ok (.leave result) := by
    rw [Frame.exec_ret]
    split
    · next value =>
      obtain ⟨v, rest, filled⟩ := List.exists_cons_of_ne_nil (returns value)
      obtain ⟨front, same⟩ := kept
      obtain ⟨w, rest', stack'⟩ : ∃ w rest', f'.stack = w :: rest' :=
        List.exists_cons_of_ne_nil (by
          show stack ≠ []
          rw [← same, filled]
          exact List.append_ne_nil_of_right_ne_nil _ (List.cons_ne_nil v rest))
      rw [stack']
      exact ⟨_, rfl⟩
    · exact ⟨_, rfl⟩
  obtain ⟨result, run⟩ := leaves
  exact ⟨result, (arrives.trans goes).settles starts (f'.current?_eq.trans last) run⟩

end Program

end Machine

end ReleaseWeaver
