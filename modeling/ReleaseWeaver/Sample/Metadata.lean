import ReleaseWeaver.Metadata.Module
import ReleaseWeaver.Sample.Reference

/-
  The imported metadata that sample modules stand on: core types, the disposal contract, the
  container, sources and subscriptions, the registration helper, markers and commands.
-/

namespace ReleaseWeaver.Sample

/-- Add an imported type with its methods. -/
def importType (m : Module) (t : TypeDef) (methods : List MethodDef) : Module :=
  match m.addType t with
  | .ok m' => methods.foldl (fun m d => m.addMethod t.definitionName d) m'
  | .error _ => m

def imported (ns name assembly : String) : TypeDef :=
  { ns, name, importedFrom := some assembly }

def importedInterface (ns name assembly : String) : TypeDef :=
  { imported ns name assembly with flags := { isInterface := true, isAbstract := true } }

def staticMethod (name : String) (returns : Option TypeRef) (params : List TypeRef) : MethodDef :=
  { name, returns, params, flags := { hidesBySignature := true, isStatic := true } }

/-- A virtual method in a slot of its own. -/
def newSlotMethod (name : String) : MethodDef :=
  { name, flags := { hidesBySignature := true, isVirtual := true, newSlot := true } }

def abstractMethod (name : String) : MethodDef :=
  { name, flags :=
      { hidesBySignature := true, isVirtual := true, isAbstract := true, newSlot := true } }

def referencedAssemblies : List AssemblyRef :=
  [⟨"mscorlib", { major := 4, minor := 0, patch := 0 }⟩,
    ⟨"System.Reactive.Core", { major := 2, minor := 2, patch := 5 }⟩,
    ⟨"System.Reactive.Core", { major := 3, minor := 0, patch := 0 }⟩,
    ⟨"Sweep.Core", { major := 1, minor := 0, patch := 0 }⟩,
    ⟨"ReactiveUI", { major := 6, minor := 5, patch := 0 }⟩,
    ⟨"Sweep.Testing", { major := 0, minor := 1, patch := 0 }⟩]

def importedTypes : List (TypeDef × List MethodDef) :=
  [(imported "System" "Object" "mscorlib", [.constructor]),
    (imported "System" "String" "mscorlib", []),
    (imported "System" "Int64" "mscorlib", []),
    (imported "System" "Boolean" "mscorlib", []),
    (importedInterface "System" "IDisposable" "mscorlib", [abstractMethod "Dispose"]),
    ({ importedInterface "System" "IObservable`1" "mscorlib" with generics := ["T"] }, []),
    ({ imported "System.Reactive.Disposables" "CompositeDisposable" "System.Reactive.Core" with
        base := some object, interfaces := [disposable] },
      [.constructor, { name := "Add", params := [disposable] }, newSlotMethod "Dispose"]),
    (imported "System" "ObservableExtensions" "System.Reactive.Core",
      [staticMethod "Subscribe" (some disposable) [observableOf (.param "T")]]),
    (imported "Sweep.Core" "TrackingExtensions" "Sweep.Core",
      [staticMethod "TrackWith" (some disposable) [disposable, container],
        staticMethod "Forget" none [disposable]]),
    (imported "Sweep.Core" "TrackHandlesAttribute" "Sweep.Core", []),
    (imported "Sweep.Core" "ReleaseCommandAttribute" "Sweep.Core", []),
    ({ importedInterface "ReactiveUI" "IReactiveCommand" "ReactiveUI" with
        interfaces := [disposable] }, []),
    (imported "Sweep.Testing" "Signals" "Sweep.Testing",
      [staticMethod "Never" (some (observableOf string)) []])]

/-- The imported metadata and no local type. -/
def importedModule : Module :=
  importedTypes.foldl (fun m (t, methods) => importType m t methods)
    { (default : Module) with name := "Sweep.Tests", references := referencedAssemblies }

end ReleaseWeaver.Sample
