import ReleaseWeaver.Weave.Marker

/-
  Targets: the local types that carry a family's marker themselves, and then all their members of
  the family's sort are in scope, or on some of these members, and then only those are.
-/

namespace ReleaseWeaver

structure Target where
  typeName : String
  family : Family
  /-- The type itself carries the marker. -/
  wide : Bool
deriving DecidableEq, Inhabited, Repr

/-- Whether a member of the family's sort carries the marker. -/
def MarkerTable.marksMember (table : MarkerTable) (family : Family) (t : TypeDef) : Bool :=
  match family with
  | .trackHandles => t.keyedMethods.any fun (key, _) => table.contains (.method key) family
  | .releaseCommands =>
    t.keyedProperties.any fun (key, _) => table.contains (.property key) family

namespace Target

def ofType? (table : MarkerTable) (family : Family) (t : TypeDef) : Option Target :=
  let wide := table.contains (.type t.definitionName) family
  if wide || table.marksMember family t then some ⟨t.definitionName, family, wide⟩ else none

/-- The targets of a family, in declaration order. -/
def select (m : Module) (table : MarkerTable) (family : Family) : List Target :=
  m.localTypes.filterMap (ofType? table family)

/-- The instance methods with a body that are in scope. -/
def methods (target : Target) (table : MarkerTable) (t : TypeDef) :
    List (MethodKey × MethodDef) :=
  t.keyedMethods.filter fun (key, d) =>
    d.isInstanceWithBody && (target.wide || table.contains (.method key) target.family)

/-- The marked methods that no pass can change, being static or without a body. -/
def excludedMethods (target : Target) (table : MarkerTable) (t : TypeDef) :
    List (MethodKey × MethodDef) :=
  t.keyedMethods.filter fun (key, d) =>
    !d.isInstanceWithBody && table.contains (.method key) target.family

/-- The properties in scope. -/
def properties (target : Target) (table : MarkerTable) (t : TypeDef) :
    List (PropertyKey × PropertyDef) :=
  t.keyedProperties.filter fun (key, _) =>
    target.wide || table.contains (.property key) target.family

end Target

end ReleaseWeaver
