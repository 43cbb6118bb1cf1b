import SummerRpc.Message.Value

/-! # Requests, results and serializers

`Request` and `Result`, and the serializers that turn them into bytes:
`PickleSerializer` of `serializer.py`, and `JsonSerializer` and `MsgpackSerializer`
over `BaseSerializer` of the extension package. The modules `pickle`, `json` and
`msgpack` are parameters.
-/

namespace SummerRpc

/-- `Request`. An attribute is missing only from an object that `pickle` has built
without its constructor. -/
structure Request where
  className : Option PyVal
  methodName : Option PyVal
  args : Option PyVal
  kwargs : Option PyVal
  «meta» : Option PyVal

/-- `Result`, with attributes as those of `Request`. -/
structure Result where
  result : Option PyVal
  exc : Option PyVal
  «meta» : Option PyVal

/-- `Request()` -/
def Request.new : Request where
  className := some .none
  methodName := some .none
  args := some (.tuple [])
  kwargs := some (.dict [])
  «meta» := some .none

/-- `Result()` -/
def Result.new : Result where
  result := some .none
  exc := some .none
  «meta» := some .none

/-- What a serializer is given and what it returns. -/
inductive Message where
  | request (request : Request)
  | result (result : Result)
  /-- an object of any other type -/
  | other (value : PyVal)

/-- The value of an attribute. -/
def getattr (attr : Option PyVal) : Except Exc PyVal :=
  match attr with
  | some value => .ok value
  | none => .error { cls := .attributeError }

/-- `Serializer`. The body of a packet is `None` when the HTTP transport has read an
empty one. -/
structure Serializer where
  loads : Option (List UInt8) → Except Exc Message
  dumps : Message → Except Exc (List UInt8)
  getName : String

/-! ## `PickleSerializer` -/

/-- `pickle`: which objects it can dump is up to their classes, and an input makes
it build any object, or raise anything. -/
structure Pickle where
  loads : Option (List UInt8) → Except Exc Message
  dumps : Message → Except Exc (List UInt8)

/-- `PickleSerializer` -/
def PickleSerializer (pickle : Pickle) : Serializer where
  loads := fun buff =>
    match pickle.loads buff with
    | .ok obj => .ok obj
    | .error ex => .error { cls := .deserializationError, msg := ex.msg }
  dumps := fun obj =>
    match pickle.dumps obj with
    | .ok buff => .ok buff
    | .error ex => .error { cls := .serializationError, msg := ex.msg }
  getName := "pickle"

/-! ## `BaseSerializer` -/

/-- The module behind a `BaseSerializer`: `dumps` is given a function for the values
it does not know. -/
structure Codec where
  loads : Option (List UInt8) → Except Exc PyVal
  dumps : (PyVal → Except Exc PyVal) → PyVal → Except Exc (List UInt8)

/-- `except (TypeError, ValueError) as ex: raise cls(ex)` -/
def wrapErrors {α : Type} (cls : ExcClass) (body : Except Exc α) : Except Exc α :=
  match body with
  | .ok value => .ok value
  | .error ex =>
    if ex.cls.isA .typeError || ex.cls.isA .valueError then .error { cls := cls, msg := ex.msg }
    else .error ex

namespace BaseSerializer

/-- The request in a dictionary. -/
def loadRequest (data : List (PyVal × PyVal)) : Except Exc Message :=
  let className := (PyVal.get data "class_name").getD .none
  let methodName := (PyVal.get data "method_name").getD .none
  let args := (PyVal.get data "args").getD (.tuple [])
  let kwargs := (PyVal.get data "kwargs").getD (.dict [])
  if !className.isBasestring || !methodName.isBasestring || !args.isSequence || !kwargs.isDict then
    .error { cls := .valueError }
  else
    .ok (.request
      { Request.new with
        className := some className
        methodName := some methodName
        args := some args
        kwargs := some kwargs })

/-- The result in a dictionary. -/
def loadResult (data : List (PyVal × PyVal)) : Message :=
  let result :=
    match PyVal.get data "result" with
    | some value => { Result.new with result := some value }
    | none => Result.new
  let result :=
    match PyVal.get data "exc" with
    | none | some .none => result
    | some value =>
        { result with exc := some (.instance "RuntimeError" [("args", .tuple [value])]) }
  let result :=
    match PyVal.get data "meta" with
    | some value => { result with «meta» := some value }
    | none => result
  .result result

/-- `loads` -/
def loads (codec : Codec) (buff : Option (List UInt8)) : Except Exc Message :=
  wrapErrors .deserializationError do
    match ← codec.loads buff with
    | .dict data =>
      if ((PyVal.get data "is_request").getD (.bool true)).truth then loadRequest data
      else return loadResult data
    | _ => .error { cls := .typeError }

/-- The dictionary `dumps` makes of an object, empty for an object of another type. -/
def toDict (S : PyVal.SpecialMethods) (obj : Message) : Except Exc (List (PyVal × PyVal)) :=
  let key (name : String) : PyVal := .str (bytes name)
  match obj with
  | .request request => do
    return [
      (key "class_name", ← getattr request.className),
      (key "method_name", ← getattr request.methodName),
      (key "args", ← getattr request.args),
      (key "kwargs", ← getattr request.kwargs),
      (key "meta", ← getattr request.meta),
      (key "is_request", .bool true)]
  | .result result => do
    let value ← getattr result.result
    let exc ← getattr result.exc
    let excText ←
      match exc with
      | .none => pure PyVal.none
      | exc => do
        let text ← exc.toStr S
        pure (.str (bytes exc.typeName ++ bytes ": " ++ text))
    return [
      (key "result", value),
      (key "exc", excText),
      (key "meta", ← getattr result.meta),
      (key "is_request", .bool false)]
  | .other _ => return []

/-- `dumps` -/
def dumps (S : PyVal.SpecialMethods) (codec : Codec) (default : PyVal → Except Exc PyVal)
    (obj : Message) : Except Exc (List UInt8) := do
  let d ← toDict S obj
  wrapErrors .serializationError <|
    if d.isEmpty then .error { cls := .typeError }
    else codec.dumps default (.dict d)

end BaseSerializer

/-! ## `strftime` -/

/-- A number with leading zeros. -/
def zeroPadded (width n : ℕ) : List UInt8 :=
  let digits := (Nat.toDigits 10 n).map fun c => UInt8.ofNat c.toNat
  List.replicate (width - digits.length) 48 ++ digits

/-- `%F` -/
def strftimeF (year month day : ℕ) : List UInt8 :=
  zeroPadded 4 year ++ bytes "-" ++ zeroPadded 2 month ++ bytes "-" ++ zeroPadded 2 day

/-- `%T` -/
def strftimeT (hour minute second : ℕ) : List UInt8 :=
  zeroPadded 2 hour ++ bytes ":" ++ zeroPadded 2 minute ++ bytes ":" ++ zeroPadded 2 second

/-- `strftime` does not know the years before 1900. -/
def strftime (year : ℕ) (text : List UInt8) : Except Exc PyVal :=
  if year < 1900 then
    .error { cls := .valueError, msg := "the datetime strftime() methods require year >= 1900" }
  else .ok (.str text)

/-- `JsonSerializer.__json_default`. A date becomes the letter `F`. -/
def jsonDefault : PyVal → Except Exc PyVal
  | .datetime year month day hour minute second =>
      strftime year (strftimeF year month day ++ bytes " " ++ strftimeT hour minute second)
  | .date year _ _ => strftime year (bytes "F")
  | .time hour minute second => strftime 1900 (strftimeT hour minute second)
  | _ => .error { cls := .typeError, msg := "is not json serializable" }

/-- `MsgpackSerializer.__msgpack_default` -/
def msgpackDefault : PyVal → Except Exc PyVal
  | .datetime year month day hour minute second =>
      strftime year (strftimeF year month day ++ bytes " " ++ strftimeT hour minute second)
  | .date year month day => strftime year (strftimeF year month day)
  | .time hour minute second => strftime 1900 (strftimeT hour minute second)
  | _ => .error { cls := .typeError }

/-- `JsonSerializer` -/
def JsonSerializer (S : PyVal.SpecialMethods) (json : Codec) : Serializer where
  loads := BaseSerializer.loads json
  dumps := BaseSerializer.dumps S json jsonDefault
  getName := "json"

/-- `MsgpackSerializer` -/
def MsgpackSerializer (S : PyVal.SpecialMethods) (msgpack : Codec) : Serializer where
  loads := BaseSerializer.loads msgpack
  dumps := BaseSerializer.dumps S msgpack msgpackDefault
  getName := "msgpack"

end SummerRpc
