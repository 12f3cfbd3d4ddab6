import ReleaseWeaver.Config.Basic
import ReleaseWeaver.Metadata.Module

/-
  Markers: attributes without data that select types and members for one of the two families.
  The table of a module records who carries which marker, each once; a marker on a member that
  its family does not know is not recorded.
-/

namespace ReleaseWeaver

inductive Family where
  /-- Track the handles that constructors and methods produce. -/
  | trackHandles
  /-- Release command properties in the teardown. -/
  | releaseCommands
deriving DecidableEq, Inhabited, Repr

def Family.text : Family → String
  | .trackHandles => "track-handles"
  | .releaseCommands => "release-commands"

def Family.ofText? (word : String) : Option Family :=
  [trackHandles, releaseCommands].find? fun f => f.text == word

/-- Who carries a marker; constructors are methods. -/
inductive Carrier where
  | type (name : String)
  | method (key : MethodKey)
  | property (key : PropertyKey)
deriving DecidableEq, Repr

def Family.attachesTo : Family → Carrier → Bool
  | .trackHandles, .property _ => false
  | .releaseCommands, .method _ => false
  | _, _ => true

/-- The family that an attribute stands for. -/
def MarkerNames.family? (names : MarkerNames) (marker : TypeRef) : Option Family :=
  if marker.definitionName == names.trackHandles then some .trackHandles
  else if marker.definitionName == names.releaseCommands then some .releaseCommands
  else none

structure MarkerTable where
  entries : List (Carrier × Family) := []
deriving Inhabited, Repr

namespace MarkerTable

def contains (table : MarkerTable) (carrier : Carrier) (family : Family) : Bool :=
  table.entries.contains (carrier, family)

/-- Whether `insert` records something new. -/
def accepts (table : MarkerTable) (carrier : Carrier) (family : Family) : Bool :=
  family.attachesTo carrier && !table.contains carrier family

def insert (table : MarkerTable) (carrier : Carrier) (family : Family) : MarkerTable :=
  if table.accepts carrier family then ⟨table.entries ++ [(carrier, family)]⟩ else table

def hasFamily (table : MarkerTable) (family : Family) : Bool :=
  table.entries.any fun (_, f) => f = family

/-- The markers among some attributes of a carrier. -/
def marks (names : MarkerNames) (carrier : Carrier) (attributes : List TypeRef) :
    List (Carrier × Family) :=
  (attributes.filterMap names.family?).map fun family => (carrier, family)

/-- The markers of a type, its methods and its properties. -/
def marksOfType (names : MarkerNames) (t : TypeDef) : List (Carrier × Family) :=
  marks names (.type t.definitionName) t.attributes
    ++ t.keyedMethods.flatMap (fun (key, d) => marks names (.method key) d.attributes)
    ++ t.keyedProperties.flatMap (fun (key, d) => marks names (.property key) d.attributes)

/-- The table of the attributes of the local types and their members. -/
def collect (m : Module) (names : MarkerNames) : MarkerTable :=
  (m.localTypes.flatMap (marksOfType names)).foldl (fun table (c, f) => table.insert c f) {}

/-- The place of a carrier among those of its sort, by the order they came into the module. -/
def rank (m : Module) : Carrier → Nat × Nat
  | .type name => (0, m.types.findIdx fun t => t.definitionName == name)
  | .method key => (1, m.methodLog.idxOf key)
  | .property key => (2, m.propertyLog.idxOf key)

def comesBefore (m : Module) (a b : Carrier × Family) : Bool :=
  let (sortA, placeA) := rank m a.1
  let (sortB, placeB) := rank m b.1
  sortA < sortB || sortA == sortB && (placeA < placeB ||
    placeA == placeB && (a.2 = .trackHandles || b.2 = .releaseCommands))

/-- Types, then methods, then properties, each by creation; the families of one carrier last. -/
def sorted (table : MarkerTable) (m : Module) : List (Carrier × Family) :=
  table.entries.mergeSort (comesBefore m)

end MarkerTable

end ReleaseWeaver
