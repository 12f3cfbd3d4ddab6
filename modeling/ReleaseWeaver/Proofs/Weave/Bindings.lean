import ReleaseWeaver.Proofs.Metadata.Lookup
import ReleaseWeaver.Weave.Collaborators

/-
  What the collaborators of a run are, once they are bound: methods of the contract, of the
  container and of the helper's type, each of the shape that was asked for, and the releases the
  first ones of that shape.
-/

namespace ReleaseWeaver

theorem bind_eq_ok {α β ε : Type} {x : Except ε α} {f : α → Except ε β} {b : β}
    (done : (x >>= f) = .ok b) : ∃ a, x = .ok a ∧ f a = .ok b := by
  cases x with
  | error e => cases done
  | ok a => exact ⟨a, rfl, done⟩

theorem eq_ok_of_toOption {α ε : Type} {x : Except ε α} {a : α} (found : x.toOption = some a) :
    x = .ok a := by
  cases x with
  | ok => exact congrArg Except.ok (Option.some.inj found)
  | error => cases found

theorem Module.definitionName_of_resolveSymbol {m : Module} {symbol : TypeSymbol} {t : TypeDef}
    (found : m.resolveSymbol symbol = .ok t) : t.definitionName = symbol.name := by
  unfold resolveSymbol at found
  obtain ⟨_, _, found⟩ := bind_eq_ok found
  split at found
  · next t' known =>
    split at found
    · cases found
      exact (mem_of_findType? known).2
    · cases found
  · cases found

namespace Collaborators

theorem requireMethod_eq_find {t : TypeDef} {member : String} {fits : MethodDef → Bool}
    {method : MethodRef} (found : requireMethod t member fits = .ok method) :
    ∃ d, t.methods.find? fits = some d ∧ method = t.methodRef d := by
  unfold requireMethod at found
  split at found
  · next d here =>
    cases found
    exact ⟨d, here, rfl⟩
  · cases found

theorem requireMethod_eq_ok {t : TypeDef} {member : String} {fits : MethodDef → Bool}
    {method : MethodRef} (found : requireMethod t member fits = .ok method) :
    ∃ d ∈ t.methods, fits d = true ∧ method = t.methodRef d := by
  obtain ⟨d, here, same⟩ := requireMethod_eq_find found
  exact ⟨d, List.mem_of_find?_eq_some here, List.find?_some here, same⟩

theorem requireHelper_eq_ok {t : TypeDef} {member : String} {contract container : TypeRef}
    {method : MethodRef} (found : requireHelper t member contract container = .ok method) :
    ∃ d ∈ t.methods, d.name = member ∧ hasHelperSignature contract container d = true ∧
      method = t.methodRef d := by
  unfold requireHelper at found
  split at found
  · next d only =>
    split at found
    · next signature =>
      cases found
      have listed : d ∈ t.methods.filter fun method => method.name == member := by
        rw [only]
        exact List.mem_singleton_self d
      obtain ⟨declared, named⟩ := List.mem_filter.1 listed
      exact ⟨d, declared, by simpa using named, signature, rfl⟩
    · cases found
  · cases found

/-- The container and its two methods, and the helper with its type. -/
theorem resolve_eq_ok {m : Module} {config : Config} {c : Collaborators}
    (found : resolve m config = .ok c) : ∃ (container helperType : TypeDef)
      (constructor release helper : MethodDef),
      container.definitionName = config.trackingContainer.name ∧
      helperType.definitionName = config.registrationHelper.type ∧
      (isDefaultConstructor constructor = true ∧
        c.containerConstructor = container.methodRef constructor) ∧
      (isRelease config.releaseMethod release = true ∧
        c.containerRelease = container.methodRef release) ∧
      helper.name = config.registrationHelper.member ∧
      (∃ contract, hasHelperSignature contract container.openRef helper = true) ∧
      c.helper = helperType.methodRef helper := by
  unfold resolve at found
  obtain ⟨contract, _, found⟩ := bind_eq_ok found
  obtain ⟨contractRelease, _, found⟩ := bind_eq_ok found
  obtain ⟨container, holds, found⟩ := bind_eq_ok found
  obtain ⟨constructor, makes, found⟩ := bind_eq_ok found
  obtain ⟨release, releases, found⟩ := bind_eq_ok found
  obtain ⟨helperType, owns, found⟩ := bind_eq_ok found
  obtain ⟨helper, helps, found⟩ := bind_eq_ok found
  cases found
  obtain ⟨d₁, _, fits₁, rfl⟩ := requireMethod_eq_ok makes
  obtain ⟨d₂, _, fits₂, rfl⟩ := requireMethod_eq_ok releases
  obtain ⟨d₃, _, named, fits₃, rfl⟩ := requireHelper_eq_ok helps
  exact ⟨container, helperType, d₁, d₂, d₃, Module.definitionName_of_resolveSymbol holds,
    Module.definitionName_of_resolveSymbol owns, ⟨fits₁, rfl⟩, ⟨fits₂, rfl⟩, named,
    ⟨_, fits₃⟩, rfl⟩

/-- The constructor takes nothing, the helper turns two values into one without a receiver, and the
container's release takes no arguments. -/
theorem shapes_of_resolve {m : Module} {config : Config} {c : Collaborators}
    (found : resolve m config = .ok c) : c.containerConstructor.params = [] ∧
      c.helper.hasThis = false ∧ c.helper.params.length = 2 ∧ c.helper.returns.isSome = true ∧
      c.containerRelease.params = [] := by
  obtain ⟨container, helperType, d₁, d₂, d₃, _, _, ⟨fits₁, makes⟩, ⟨fits₂, releases⟩, _,
    ⟨contract, fits₃⟩, helps⟩ := resolve_eq_ok found
  simp only [isDefaultConstructor, isRelease, hasHelperSignature, Bool.and_eq_true,
    List.isEmpty_iff] at fits₁ fits₂ fits₃
  have value : d₃.returns.isSome = true := by
    have same := fits₃.2
    cases returns : d₃.returns with
    | none =>
      rw [returns] at same
      cases same
    | some t => rfl
  refine ⟨?_, ?_, ?_, ?_, ?_⟩
  · rw [makes]
    exact fits₁.2
  · rw [helps, TypeDef.methodRef, MethodDef.isStatic, show d₃.flags.isStatic = true from fits₃.1.1]
    rfl
  · rw [helps]
    exact List.length_eq_of_beq fits₃.1.2
  · rw [helps]
    exact value
  · rw [releases]
    exact fits₂.1.2

/-- The method is the first one of the type that a release of that name is bound to. -/
def Picks (t : TypeDef) (name : String) (release : MethodDef) : Prop :=
  t.methods.find? (isRelease name) = some release

theorem Picks.params {t : TypeDef} {name : String} {release : MethodDef}
    (picks : Picks t name release) : release.params = [] := by
  have fits := List.find?_some picks
  simp only [isRelease, Bool.and_eq_true, List.isEmpty_iff] at fits
  exact fits.1.2

/-- Both releases are the first ones of their types. -/
theorem picks_of_resolve {m : Module} {config : Config} {c : Collaborators}
    (found : resolve m config = .ok c) : ∃ contract container dispose drain,
      m.resolveSymbol config.disposalContract = .ok contract ∧
      m.resolveSymbol config.trackingContainer = .ok container ∧
      Picks contract config.releaseMethod dispose ∧ Picks container config.releaseMethod drain ∧
      c.contractRelease = contract.methodRef dispose ∧
      c.containerRelease = container.methodRef drain := by
  unfold resolve at found
  obtain ⟨contract, promised, found⟩ := bind_eq_ok found
  obtain ⟨contractRelease, disposes, found⟩ := bind_eq_ok found
  obtain ⟨container, holds, found⟩ := bind_eq_ok found
  obtain ⟨_, _, found⟩ := bind_eq_ok found
  obtain ⟨containerRelease, drains, found⟩ := bind_eq_ok found
  obtain ⟨_, _, found⟩ := bind_eq_ok found
  obtain ⟨_, _, found⟩ := bind_eq_ok found
  cases found
  obtain ⟨dispose, picked, rfl⟩ := requireMethod_eq_find disposes
  obtain ⟨drain, picked', rfl⟩ := requireMethod_eq_find drains
  exact ⟨contract, container, dispose, drain, promised, holds, picked, picked', rfl, rfl⟩

/-- The contract's release takes no arguments. -/
theorem params_contractRelease {m : Module} {config : Config} {c : Collaborators}
    (found : resolve m config = .ok c) : c.contractRelease.params = [] := by
  obtain ⟨_, _, _, _, _, _, disposes, _, same, _⟩ := picks_of_resolve found
  rw [same]
  exact disposes.params

end Collaborators

end ReleaseWeaver
