import ReleaseWeaver.Sample.Builder

/-
  The base models and the scenarios. `TestModelBase` is disposable and owns the probe; `BaseModel`
  adds nothing; `CommandDecorator` is a command that records its release.
-/

namespace ReleaseWeaver.Sample

namespace Scenario

def testModelBase : Building Unit := do
  let model ← Model.startType
    { ns := modelsNamespace, name := "TestModelBase", base := some object,
      interfaces := [disposable], flags := { isAbstract := true } }
    objectConstructor
  let probe ← model.field "Probe" container
  let _ ← model.constructor [] [.ldthis, .newobj containerConstructor, .stfld probe]
  let _ ← model.method (newSlotMethod "Dispose") [.ret]

def baseModel : Building Unit := do
  let base := Sample.model "TestModelBase"
  let model ← Model.startType
    { ns := modelsNamespace, name := "BaseModel", base := some base,
      flags := { isAbstract := true } }
    (constructorOf base [])
  let _ ← model.constructor [] []

def commandDecorator : Building Unit := do
  let model ← Model.startType
    { ns := modelsNamespace, name := "CommandDecorator`1", base := some object,
      interfaces := [commandCapability], generics := ["T"] }
    objectConstructor
  let flag ← model.field "IsDisposed" int64
  let _ ← model.constructor [] []
  let _ ← model.method (newSlotMethod "Dispose") [.ldthis, .ldint 1, .stfld flag, .ret]

def baseModels : Building Unit := do
  testModelBase
  baseModel
  commandDecorator

/-- A marked constructor with one handle call. -/
def singleConstructorSingleSubscribe : Building Unit := do
  let model ← Model.named "SingleConstructorSingleSubscribeModel"
  let _ ← model.constructor [] subscribeIntoProbe [trackHandlesMarker]

/-- Two constructors with a handle call each, the first marked. -/
def twoConstructorsOneMarked : Building Unit := do
  let model ← Model.named "TwoConstructorsOnlyOneMarkedModel"
  let _ ← model.constructor [] subscribeIntoProbe [trackHandlesMarker]
  let _ ← model.constructor [boolean] subscribeIntoProbe

def singleMethodSingleSubscribe : Building Unit := do
  let model ← Model.named "SingleMethodSingleSubscribeModel"
  let _ ← model.constructor [] []
  let _ ← model.voidMethod "SingleMethod" subscribeIntoProbe [trackHandlesMarker]

/-- Two methods that return a handle, the first marked. -/
def twoMethodsOneMarked : Building Unit := do
  let model ← Model.named "TwoMethodsOnlyOneMarkedModel"
  let _ ← model.constructor [] []
  let _ ← model.method
    { name := "MethodWithMarker", returns := some disposable, attributes := [trackHandlesMarker] }
    subscribeAndReturn [disposable]
  let _ ← model.method { name := "MethodWithoutMarker", returns := some disposable }
    subscribeAndReturn [disposable]

/-- Four handle calls in three marked methods. -/
def threeMethodsMultipleSubscribes : Building Unit := do
  let model ← Model.named "ThreeMethodsWithMultipleSubscribesModel"
  let _ ← model.constructor [] []
  let _ ← model.voidMethod "MethodOne" subscribeIntoProbe [trackHandlesMarker]
  let _ ← model.method
    { name := "MethodTwo", returns := some int64, params := [observableOf string],
      attributes := [trackHandlesMarker] }
    (subscribeArgIntoProbe 1 ++ [.ldint 1, .ret])
  let _ ← model.method
    { name := "MethodThree", returns := some disposable, attributes := [trackHandlesMarker] }
    (subscribeIntoProbe ++ subscribeAndReturn) [disposable]

/-- A marked type: two constructors and two methods, three handle calls. -/
def classSingleConstructorTwoMethods : Building Unit := do
  let model ← Model.named "ClassSingleConstructorTwoMethods"
  model.mark trackHandlesMarker
  let _ ← model.constructor [] subscribeIntoProbe
  let _ ← model.constructor [string] []
  let _ ← model.voidMethod "MethodOne" subscribeIntoProbe
  let _ ← model.voidMethod "MethodTwo" subscribeIntoProbe

/-- A marked type over the former one, with a teardown that does not call the inherited one. -/
def complexClass : Building Unit := do
  let parent := Sample.model "ClassSingleConstructorTwoMethods"
  let model ← Model.extending "ComplexClass" parent (constructorOf parent [])
  model.mark trackHandlesMarker
  let value ← model.field "IntValue" int64
  let store : List Instr := [.ldthis, .ldint 10, .stfld value]
  let _ ← model.constructor [] (store ++ subscribeIntoProbe)
  let _ ← model.constructorCalling (constructorOf parent [string]) [string] store
    [trackHandlesMarker]
  let _ ← model.voidMethod "ComplexMethodOne" (subscribeIntoProbe ++ subscribeIntoProbe)
  let _ ← model.teardown [.ldthis, .ldint 0, .stfld value]

/-- A marked constructor and a marked method. -/
def constructorAndMethodMarked : Building Unit := do
  let model ← Model.named "ConstructorAndMethodMarkedModel"
  let _ ← model.constructor [] subscribeIntoProbe [trackHandlesMarker]
  let _ ← model.voidMethod "Refresh" subscribeIntoProbe [trackHandlesMarker]
  let _ ← model.voidMethod "Unmarked" subscribeIntoProbe

/-- A marked type without a handle call. -/
def emptyTracked : Building Unit := do
  let model ← Model.named "EmptyTrackedModel"
  model.mark trackHandlesMarker
  let _ ← model.constructor [] []
  let _ ← model.voidMethod "Touch" [.nop]

/-- Marked, and not disposable. -/
def notDisposable : Building Unit := do
  let model ← Model.extending "NotDisposableModel" object objectConstructor
  let _ ← model.constructor [] []
  let _ ← model.voidMethod "Listen" [.call never, .call subscribe, .pop] [trackHandlesMarker]

/-- Generic, with an inherited teardown only. -/
def genericWithoutTeardown : Building Unit := do
  let model ← Model.named "GenericModel`1"
  model.generic "T"
  let _ ← model.constructor [] []
  let _ ← model.voidMethod "Listen" subscribeIntoProbe [trackHandlesMarker]

/-- Generic, with an empty teardown of its own. -/
def genericWithTeardown : Building Unit := do
  let model ← Model.named "GenericDisposableModel`1"
  model.generic "T"
  let _ ← model.constructor [] subscribeIntoProbe [trackHandlesMarker]
  let _ ← model.teardown []

/-- A teardown that branches to its final exit on every call after the first. -/
def earlyExitTeardown : Building Unit := do
  let model ← Model.named "EarlyExitTeardownModel"
  model.mark trackHandlesMarker
  let released ← model.field "Released" int64
  let _ ← model.constructor [] subscribeIntoProbe
  let _ ← model.method { name := "Dispose", flags := .overridable }
    [.ldthis, .ldfld released, .branch .whenTrue (.nth 7), .ldthis, .ldint 1, .stfld released,
      .ret]

/-- Store a new command in each field. -/
def assignNewCommands (fields : List FieldRef) : List Instr :=
  fields.flatMap fun field =>
    [.ldthis, .newobj (constructorOf (commandDecoratorOf object) []), .stfld field]

/-- One marked command property and one without a marker. -/
def singleCommandProperty : Building Unit := do
  let model ← Model.named "SingleCommandPropertyModel"
  let marked ← model.autoProperty "Command" (commandDecoratorOf object) [releaseCommandsMarker]
  let other ← model.autoProperty "Other" (commandDecoratorOf object)
  let _ ← model.constructor [] (assignNewCommands [marked, other])

/-- A marked type with two commands and a text. -/
def twoCommandsTypeWide : Building Unit := do
  let model ← Model.named "TwoCommandsTypeWideModel"
  model.mark releaseCommandsMarker
  let first ← model.autoProperty "Command1" (commandDecoratorOf object)
  let second ← model.autoProperty "Command2" (commandDecoratorOf object)
  let name ← model.autoProperty "Name" string
  let _ ← model.constructor []
    (assignNewCommands [first, second] ++ [.ldthis, .ldstr "model", .stfld name])

/-- Both families on one type. -/
def trackedCommandModel : Building Unit := do
  let model ← Model.named "TrackedCommandModel"
  model.mark trackHandlesMarker
  let backing ← model.autoProperty "Command" (commandDecoratorOf object) [releaseCommandsMarker]
  let _ ← model.constructor [] (assignNewCommands [backing] ++ subscribeIntoProbe)

/-- A handle target declared before the handle target that it extends. -/
def leafDeclaredBeforeMid : Building Unit := do
  let parent := Sample.model "MidTrackedModel"
  let leaf ← Model.extending "LeafTrackedModel" parent (constructorOf parent [])
  let _ ← leaf.constructor [] subscribeIntoProbe [trackHandlesMarker]
  let mid ← Model.named "MidTrackedModel"
  let _ ← mid.constructor [] subscribeIntoProbe [trackHandlesMarker]

/-- A command target without a teardown, extended by a handle target. -/
def commandBaseWithTrackedSubtype : Building Unit := do
  let base ← Model.named "CommandBaseModel"
  let backing ← base.autoProperty "Command" (commandDecoratorOf object) [releaseCommandsMarker]
  let _ ← base.constructor [] (assignNewCommands [backing])
  let parent ← base.selfRef
  let derived ← Model.extending "TrackedCommandSubtypeModel" parent (constructorOf parent [])
  let _ ← derived.constructor [] subscribeIntoProbe [trackHandlesMarker]

/-- The scenarios by name. -/
def table : List (String × Building Unit) := [
  ("single_constructor_single_subscribe", singleConstructorSingleSubscribe),
  ("two_constructors_one_marked", twoConstructorsOneMarked),
  ("single_method_single_subscribe", singleMethodSingleSubscribe),
  ("two_methods_one_marked", twoMethodsOneMarked),
  ("three_methods_multiple_subscribes", threeMethodsMultipleSubscribes),
  ("class_single_constructor_two_methods", classSingleConstructorTwoMethods),
  ("complex_class", complexClass),
  ("constructor_and_method_marked", constructorAndMethodMarked),
  ("empty_tracked", emptyTracked),
  ("not_disposable", notDisposable),
  ("generic_without_teardown", genericWithoutTeardown),
  ("generic_with_teardown", genericWithTeardown),
  ("early_exit_teardown", earlyExitTeardown),
  ("single_command_property", singleCommandProperty),
  ("two_commands_type_wide", twoCommandsTypeWide),
  ("tracked_command_model", trackedCommandModel),
  ("leaf_declared_before_mid", leafDeclaredBeforeMid),
  ("command_base_with_tracked_subtype", commandBaseWithTrackedSubtype)]

def named? (name : String) : Option (Building Unit) := table.lookup name

end Scenario

/-- The imported metadata and the base models. -/
def baseModule : Module :=
  match Scenario.baseModels.run importedModule with
  | .ok _ m => m
  | .error _ m => m

end ReleaseWeaver.Sample
