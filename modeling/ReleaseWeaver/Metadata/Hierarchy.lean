import ReleaseWeaver.Metadata.Module

/-
  Walks along base types and interfaces. A walk up the base chain takes at most as many steps as
  the module has types, so a cyclic chain ends as well; the search for a type that can stand for
  another looks at each definition name once.
-/

namespace ReleaseWeaver

/-- What makes a type disposable: the contract it implements, and the name of the parameterless
method that releases it. -/
structure Disposal where
  contract : TypeRef
  release : String
deriving Inhabited, Repr

namespace Module

/-- At most `count` types of the base chain from `t` on. -/
def baseChain (m : Module) : Nat → TypeDef → List TypeDef
  | 0, _ => []
  | count + 1, t => t :: match m.baseOf? t with
    | some base => m.baseChain count base
    | none => []

/-- The type itself and its ancestors, nearest first. -/
def ancestors (m : Module) (t : TypeDef) : List TypeDef := m.baseChain m.types.length t

def implementsContract (contract : TypeRef) (t : TypeDef) : Bool :=
  t.interfaces.any fun i => i == contract

/-- The type or one of its ancestors lists the contract. -/
def isDisposable (m : Module) (d : Disposal) (t : TypeDef) : Bool :=
  (m.ancestors t).any (implementsContract d.contract)

end Module

/-- The references that a type leads to directly: its base type, then its interfaces. -/
def TypeDef.supertypes (t : TypeDef) : List TypeRef := t.base.toList ++ t.interfaces

/-- A parameterless instance method of the release name. -/
def Disposal.isTeardown (d : Disposal) (method : MethodDef) : Bool :=
  method.name == d.release && method.params.isEmpty && !method.isConstructor && !method.isStatic

/-- The teardown that a type declares itself. -/
def TypeDef.ownTeardown? (t : TypeDef) (d : Disposal) : Option (MethodKey × MethodDef) :=
  t.keyedMethods.find? fun (_, method) => d.isTeardown method

namespace Module

/-- The nearest teardown, the type's own included. -/
def teardown? (m : Module) (d : Disposal) (t : TypeDef) : Option (MethodKey × MethodDef) :=
  (m.ancestors t).findSome? fun a => a.ownTeardown? d

/-- The nearest teardown strictly above the type. -/
def inheritedTeardown? (m : Module) (d : Disposal) (t : TypeDef) :
    Option (MethodKey × MethodDef) :=
  ((m.ancestors t).drop 1).findSome? fun a => a.ownTeardown? d

/-- Along a chain, the base reference of the first link that leads to `ancestor`. -/
def linkTo? (ancestor : String) : List TypeDef → Option TypeRef
  | current :: next :: rest =>
    if next.definitionName = ancestor ∧ current.base.isSome then current.base
    else linkTo? ancestor (next :: rest)
  | _ => none

/-- The reference through which a type sees an ancestor: that of the link which reaches it, with
the link's generic arguments. -/
def ancestorRef (m : Module) (t ancestor : TypeDef) : TypeRef :=
  (linkTo? ancestor.definitionName (m.ancestors t)).getD ancestor.selfRef

/-- The references that a type leads to; none once its name has been looked at. -/
def openLinksOf (seen : List String) (t : TypeDef) : List TypeRef :=
  if seen.contains t.definitionName then [] else t.supertypes

theorem openLinksOf_le (seen : List String) (name : String) (t : TypeDef) :
    (openLinksOf (name :: seen) t).length ≤ (openLinksOf seen t).length := by
  unfold openLinksOf
  by_cases looked : seen.contains t.definitionName = true
  · have looked' : (name :: seen).contains t.definitionName = true := by
      rw [List.contains_cons, looked, Bool.or_true]
    exact Nat.le_of_eq (by rw [if_pos looked', if_pos looked])
  · rw [if_neg looked]
    split
    · exact Nat.zero_le _
    · exact Nat.le_refl _

/-- How many references the types lead to whose definition name has not been looked at. -/
def openLinks (m : Module) (seen : List String) : Nat :=
  (m.types.flatMap (openLinksOf seen)).length

theorem length_openLinksOf_le (types : List TypeDef) (seen : List String) (name : String) :
    (types.flatMap (openLinksOf (name :: seen))).length ≤
      (types.flatMap (openLinksOf seen)).length := by
  induction types with
  | nil => exact Nat.le_refl _
  | cons t rest ih =>
    rw [List.flatMap_cons, List.flatMap_cons, List.length_append, List.length_append]
    exact Nat.add_le_add (openLinksOf_le seen name t) ih

theorem openLinks_add_le {m : Module} {seen : List String} {name : String} {t : TypeDef}
    (known : m.findType? name = some t) (fresh : seen.contains name = false) :
    m.openLinks (name :: seen) + t.supertypes.length ≤ m.openLinks seen := by
  have named : t.definitionName = name := by
    have := List.find?_some known
    simpa using this
  have before : openLinksOf seen t = t.supertypes := by
    rw [openLinksOf, named, fresh]
    rfl
  have after : openLinksOf (name :: seen) t = [] := by
    rw [openLinksOf, named, List.contains_cons, beq_self_eq_true]
    rfl
  obtain ⟨first, rest, split⟩ := List.append_of_mem (List.mem_of_find?_eq_some known)
  have := length_openLinksOf_le first seen name
  have := length_openLinksOf_le rest seen name
  simp only [openLinks, split, List.flatMap_append, List.flatMap_cons, List.length_append, before,
    after, List.length_nil]
  omega

/-- Look for `target` from the pending references on, the last one first. -/
def reaches (m : Module) (target : TypeRef) (seen : List String) (pending : List TypeRef) : Bool :=
  match pending with
  | [] => false
  | current :: rest =>
    if current == target then true
    else if fresh : seen.contains current.definitionName then m.reaches target seen rest
    else match known : m.resolve? current with
      | none => m.reaches target (current.definitionName :: seen) rest
      | some d =>
        have : m.openLinks (current.definitionName :: seen) + d.supertypes.length ≤
            m.openLinks seen := by
          unfold resolve? at known
          split at known
          · cases known
          · exact openLinks_add_le known (by simpa using fresh)
        m.reaches target (current.definitionName :: seen)
          (d.supertypes.reverse ++ rest)
termination_by m.openLinks seen + pending.length
decreasing_by
  · simp
  · have := length_openLinksOf_le m.types seen current.definitionName
    simp only [openLinks, List.length_cons]
    omega
  · simp
    omega

/-- Whether a value of the one type can stand where the other is expected. -/
def isAssignable (m : Module) (t target : TypeRef) : Bool := m.reaches target [] [t]

end Module

end ReleaseWeaver
