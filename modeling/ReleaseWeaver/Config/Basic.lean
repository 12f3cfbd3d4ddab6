/-
  The configuration of a run: the names of the collaborators, of the markers, and of what is
  generated. Every part has a default.
-/

namespace ReleaseWeaver

/-- A type of a referenced assembly. -/
structure TypeSymbol where
  name : String
  assembly : String
deriving DecidableEq, Inhabited, Repr

/-- A method of a type of a referenced assembly. -/
structure MemberSymbol where
  type : String
  member : String
  assembly : String
deriving DecidableEq, Inhabited, Repr

/-- The attribute of each family. -/
structure MarkerNames where
  trackHandles : String := "Sweep.Core.TrackHandlesAttribute"
  releaseCommands : String := "Sweep.Core.ReleaseCommandAttribute"
deriving DecidableEq, Inhabited, Repr

structure Config where
  /-- Stands before the type's name in the name of a tracking field. -/
  fieldPrefix : String := "$SweepTracker"
  /-- Part of the full name of every call that produces a handle. -/
  handleCallFragment : String := "Subscribe"
  releaseMethod : String := "Dispose"
  disposalContract : TypeSymbol := ⟨"System.IDisposable", "mscorlib"⟩
  trackingContainer : TypeSymbol :=
    ⟨"System.Reactive.Disposables.CompositeDisposable", "System.Reactive.Core"⟩
  registrationHelper : MemberSymbol :=
    ⟨"Sweep.Core.TrackingExtensions", "TrackWith", "Sweep.Core"⟩
  commandCapability : TypeSymbol := ⟨"ReactiveUI.IReactiveCommand", "ReactiveUI"⟩
  markers : MarkerNames := {}
deriving DecidableEq, Repr

namespace Config

/-- The configuration with nothing changed. -/
def default : Config := {}

instance : Inhabited Config := ⟨default⟩

def fileName : String := "Sweep.toml"

/-- Where the configuration is looked for, by the setting of `SWEEP_CONFIG_PATH` in the
environment. -/
def pathFrom (setting : Option String) : String := setting.getD fileName

end Config

end ReleaseWeaver
