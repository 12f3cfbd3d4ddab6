import ReleaseWeaver.Machine.State

/-
  Native code of the reactive library: containers that release their entries once and late
  entries at once, subscriptions, a source that never ends, and the helper that puts a handle into
  a container.
-/

namespace ReleaseWeaver.Machine.Reactive

def disposable : TypeRef := .plain "System" "IDisposable"

def subscriptionName : String := "Sweep.Testing.Subscription"

def sourceName : String := "Sweep.Testing.NeverObservable"

/-- The call that releases a value through the disposal contract. -/
def release (v : Value) : Call where
  method := { declaring := disposable, name := "Dispose" }
  args := [v]
  isVirtual := true

/-- Release some values in order and end with a result; the first failure ends it. -/
def releaseAll (result : Option Value) : List Value → NativeWork
  | [] => .done (.ok result)
  | v :: rest => .ask (.invoke (release v)) fun h outcome => (h, match outcome with
      | .ok _ => releaseAll result rest
      | .error e => .done (.error e))

/-- Native code that leaves the heap alone where it fails. -/
def attempt (h : Heap) (reply : Except ExecError (Heap × NativeWork)) : Heap × NativeWork :=
  match reply with
  | .ok reply => reply
  | .error e => (h, .done (.error e))

/-- Native code that ends with a result. -/
def finish (h : Heap) (result : Option Value := none) : Heap × NativeWork :=
  (h, .done (.ok result))

def receiver : List Value → Except ExecError Value
  | [] => .error (.stackUnderflow "missing receiver")
  | v :: _ => .ok v

def objectConstructor : NativeCode := fun h _ => finish h

def setNative (native : Native) (o : Object) : Object := { o with native }

def containerConstructor : NativeCode := fun h args => attempt h do
  let (n, _) ← h.object (← receiver args)
  return finish (h.modify (setNative (.container [] false)) n)

/-- Add an entry; a released container releases it at once. -/
def add (h : Heap) (container item : Value) (result : Option Value) :
    Except ExecError (Heap × NativeWork) := do
  let (n, o) ← h.object container
  match o.native with
  | .container entries released =>
    return (h.modify (setNative (.container (entries ++ [item]) released)) n,
      releaseAll result (if released then [item] else []))
  | _ => throw (.notAnObject "CompositeDisposable::Add receiver")

def containerAdd : NativeCode := fun h args =>
  match args with
  | container :: item :: _ => attempt h (add h container item none)
  | _ => attempt h (.error (.stackUnderflow "CompositeDisposable::Add"))

/-- Release the entries, the first time. -/
def containerRelease : NativeCode := fun h args => attempt h do
  let (n, o) ← h.object (← receiver args)
  match o.native with
  | .container entries false =>
    return (h.modify (setNative (.container entries true)) n, releaseAll none entries)
  | .container _ true => return finish h
  | _ => throw (.notAnObject "CompositeDisposable::Dispose receiver")

def subscriptionRelease : NativeCode := fun h args => attempt h do
  let (n, o) ← h.object (← receiver args)
  match o.native with
  | .handle _ => return finish (h.modify (setNative (.handle true)) n)
  | _ => return finish h

def never : NativeCode := fun h _ =>
  let (heap, source) := h.alloc { className := sourceName }
  finish heap (some source)

def subscribe : NativeCode := fun h args => attempt h do
  match ← receiver args with
  | .null => throw (.nullReference "ObservableExtensions::Subscribe")
  | _ =>
    let (heap, handle) := h.alloc { className := subscriptionName, native := .handle false }
    return finish heap (some handle)

/-- Put a handle into a container and hand it back. -/
def trackWith : NativeCode := fun h args =>
  match args with
  | [handle, container] => attempt h (add h container handle (some handle))
  | _ => attempt h (.error (.stackUnderflow "TrackingExtensions::TrackWith"))

def natives : String → Option NativeCode
  | "System.Object::.ctor" => some objectConstructor
  | "System.Reactive.Disposables.CompositeDisposable::.ctor" => some containerConstructor
  | "System.Reactive.Disposables.CompositeDisposable::Add" => some containerAdd
  | "System.Reactive.Disposables.CompositeDisposable::Dispose" => some containerRelease
  | "System.ObservableExtensions::Subscribe" => some subscribe
  | "Sweep.Testing.Signals::Never" => some never
  | "Sweep.Core.TrackingExtensions::TrackWith" => some trackWith
  | "Sweep.Testing.Subscription::Dispose" => some subscriptionRelease
  | _ => none

end ReleaseWeaver.Machine.Reactive
