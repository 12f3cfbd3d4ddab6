import ReleaseWeaver.Code.Instr

/-
  The types and members that sample modules refer to, and short runs of instructions over them.
-/

namespace ReleaseWeaver.Sample

def object : TypeRef := .plain "System" "Object"

def string : TypeRef := .plain "System" "String"

def int64 : TypeRef := .plain "System" "Int64"

def boolean : TypeRef := .plain "System" "Boolean"

def disposable : TypeRef := .plain "System" "IDisposable"

def container : TypeRef := .plain "System.Reactive.Disposables" "CompositeDisposable"

def observableOf (element : TypeRef) : TypeRef :=
  .named "System" "IObservable`1" none [element]

def commandCapability : TypeRef := .plain "ReactiveUI" "IReactiveCommand"

def trackHandlesMarker : TypeRef := .plain "Sweep.Core" "TrackHandlesAttribute"

def releaseCommandsMarker : TypeRef := .plain "Sweep.Core" "ReleaseCommandAttribute"

def modelsNamespace : String := "Sweep.Tests.Models"

/-- A model by its name. -/
def model (name : String) : TypeRef := .plain modelsNamespace name

def commandDecoratorOf (element : TypeRef) : TypeRef :=
  .named modelsNamespace "CommandDecorator`1" none [element]

def constructorOf (t : TypeRef) (params : List TypeRef) : MethodRef :=
  { declaring := t, name := constructorName, params }

def objectConstructor : MethodRef := constructorOf object []

def containerConstructor : MethodRef := constructorOf container []

def containerAdd : MethodRef :=
  { declaring := container, name := "Add", params := [disposable] }

def containerDispose : MethodRef := { declaring := container, name := "Dispose" }

def disposableDispose : MethodRef := { declaring := disposable, name := "Dispose" }

/-- A source that never completes. -/
def never : MethodRef where
  declaring := .plain "Sweep.Testing" "Signals"
  name := "Never"
  returns := some (observableOf string)
  hasThis := false

/-- The call that produces a handle. -/
def subscribe : MethodRef where
  declaring := .plain "System" "ObservableExtensions"
  name := "Subscribe"
  returns := some disposable
  params := [observableOf string]
  hasThis := false

def trackWith : MethodRef where
  declaring := .plain "Sweep.Core" "TrackingExtensions"
  name := "TrackWith"
  returns := some disposable
  params := [disposable, container]
  hasThis := false

/-- The container to which every model adds its handles; it is never released. -/
def probe : FieldRef :=
  { declaring := model "TestModelBase", name := "Probe", type := container }

/-- Subscribe to a fresh source and add the handle to the probe. -/
def subscribeIntoProbe : List Instr :=
  [.ldthis, .ldfld probe, .call never, .call subscribe, .callvirt containerAdd]

/-- Subscribe to the source in an argument and add the handle to the probe. -/
def subscribeArgIntoProbe (index : UInt16) : List Instr :=
  [.ldthis, .ldfld probe, .ldarg index, .call subscribe, .callvirt containerAdd]

/-- Subscribe, add the handle to the probe and return it; uses the first local. -/
def subscribeAndReturn : List Instr :=
  [.call never, .call subscribe, .stloc 0, .ldthis, .ldfld probe, .ldloc 0,
    .callvirt containerAdd, .ldloc 0, .ret]

end ReleaseWeaver.Sample
