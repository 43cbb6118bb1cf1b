import SummerRpc.Message.Value

/-! # Exported methods

What `Exporter.get_method` finds, and the built-in `HeartBeatRequest.send`.
-/

namespace SummerRpc

/-- A bound method, as far as the server looks at it. -/
structure Method where
  /-- `gen.is_coroutine_function(method)` -/
  isCoroutine : Bool := false
  /-- `get_run_in_subprocess(method)` -/
  runInSubprocess : Option Bool := none
deriving DecidableEq, Repr

/-- `Exporter`: `_exported`, from class names to methods by name. -/
structure Exporter where
  exported : List (List UInt8 × List (List UInt8 × Method))

namespace Exporter

/-- `Exporter(install_heartbeat)` -/
def new (installHeartbeat : Bool) : Exporter where
  exported := if installHeartbeat then [(bytes "HeartBeatRequest", [(bytes "send", {})])] else []

/-- The value under the key that is equal to `name`. -/
def lookup {α : Type} (items : List (List UInt8 × α)) (name : PyVal) : Option α :=
  (items.find? fun item => name.eqStr item.1).map Prod.snd

/-- `iter_method` -/
def iterMethod (exporter : Exporter) : List (List UInt8 × List UInt8 × Method) :=
  exporter.exported.flatMap fun (className, nameToMethod) =>
    nameToMethod.map fun (methodName, method) => (className, methodName, method)

/-- There is a method of that name under the name of the class. -/
def Exports (exporter : Exporter) (className methodName : List UInt8) : Prop :=
  ∃ method, (className, methodName, method) ∈ exporter.iterMethod

/-- `get_method`. Looking a name up in a dictionary takes its hash. -/
def getMethod (S : PyVal.SpecialMethods) (exporter : Exporter) (className methodName : PyVal) :
    Except Exc (Option Method) := do
  className.hash S
  methodName.hash S
  return lookup ((lookup exporter.exported className).getD []) methodName

end Exporter

/-- `HeartBeatRequest.send(*a, **kw)` -/
def HeartBeatRequest.send (now : PyVal) (a : List PyVal) (kw : List (PyVal × PyVal)) : PyVal :=
  .instance "HeartBeatResponse"
    [("_timestamp", now), ("_args", .tuple a), ("_kwargs", .dict kw)]

end SummerRpc
