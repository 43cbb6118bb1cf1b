import SummerRpc.Exception
import Mathlib.Data.Int.Notation

/-! # Python values

The values that travel in requests and results, as far as the program looks into
them: the built-in types by their contents, an instance of a class by the name of
the class and its attributes. A `str` is its bytes, a `unicode` its characters.

What the methods of an instance's own class do is `SpecialMethods`.
-/

namespace SummerRpc

/-- A `str` literal of the source. -/
def bytes (s : String) : List UInt8 := s.toList.map fun c => UInt8.ofNat c.toNat

/-- A Python value. -/
inductive PyVal where
  | none
  | bool (b : Bool)
  | int (n : ℤ)
  /-- by its `repr` -/
  | float (repr : List UInt8)
  | str (s : List UInt8)
  | unicode (s : List Char)
  | tuple (items : List PyVal)
  | list (items : List PyVal)
  | dict (items : List (PyVal × PyVal))
  | datetime (year month day hour minute second : ℕ)
  | date (year month day : ℕ)
  | time (hour minute second : ℕ)
  /-- an exception of a class of `exception.py`, with what it wraps -/
  | baseError (cls : ExcClass) (msg : PyVal)
  /-- an instance of any other class -/
  | instance (cls : String) (attrs : List (String × PyVal))

namespace PyVal

/-- `str(value)`, `hash(value)`, `*value` and `**value` of the values that do not
decide it by their built-in type. The first is needed for every value that is not a
string, the others for the instances of classes. -/
structure SpecialMethods where
  str : PyVal → Except Exc (List UInt8)
  hash : PyVal → Except Exc Unit
  iter : PyVal → Except Exc (List PyVal)
  items : PyVal → Except Exc (List (PyVal × PyVal))

/-- The class of the value, `type(value).__name__`. -/
def typeName : PyVal → String
  | none => "NoneType"
  | bool _ => "bool"
  | int _ => "int"
  | float _ => "float"
  | str _ => "str"
  | unicode _ => "unicode"
  | tuple _ => "tuple"
  | list _ => "list"
  | dict _ => "dict"
  | datetime .. => "datetime"
  | date .. => "date"
  | time .. => "time"
  | baseError cls _ => cls.name
  | «instance» cls _ => cls

/-- `isinstance(value, basestring)` -/
def isBasestring : PyVal → Bool
  | str _ | unicode _ => true
  | _ => false

/-- `isinstance(value, (tuple, list))` -/
def isSequence : PyVal → Bool
  | tuple _ | list _ => true
  | _ => false

/-- `isinstance(value, dict)` -/
def isDict : PyVal → Bool
  | dict _ => true
  | _ => false

/-- `bool(value)`; an instance is true. -/
def truth : PyVal → Bool
  | none => false
  | bool b => b
  | int n => n ≠ 0
  | float repr => repr ≠ bytes "0.0" ∧ repr ≠ bytes "-0.0"
  | str s => s ≠ []
  | unicode s => s ≠ []
  | tuple items | list items => !items.isEmpty
  | dict items => !items.isEmpty
  | datetime .. | date .. | baseError .. | «instance» .. => true
  | time hour minute second => hour ≠ 0 ∨ minute ≠ 0 ∨ second ≠ 0

/-- `value == name` for a `str`: a `unicode` is equal to it when it has the same
ASCII characters. -/
def eqStr (name : List UInt8) : PyVal → Bool
  | str s => s = name
  | unicode s => s.map (fun c => c.toNat) = name.map (fun b => b.toNat) ∧ name.all (· < 128)
  | _ => false

/-- `data.get(name)` of the items of a dictionary. -/
def get (items : List (PyVal × PyVal)) (name : String) : Option PyVal :=
  (items.find? fun item => item.1.eqStr (bytes name)).map Prod.snd

mutual

/-- `hash(value)`, for its exceptions: a list and a dictionary have none, and
neither has a tuple that holds one. -/
def hash (S : SpecialMethods) : PyVal → Except Exc Unit
  | list _ => .error { cls := .typeError, msg := "unhashable type: 'list'" }
  | dict _ => .error { cls := .typeError, msg := "unhashable type: 'dict'" }
  | tuple items => hashAll S items
  | «instance» cls attrs => S.hash («instance» cls attrs)
  | _ => .ok ()

/-- `hash` of each item of a tuple. -/
def hashAll (S : SpecialMethods) : List PyVal → Except Exc Unit
  | [] => .ok ()
  | item :: items => do
    hash S item
    hashAll S items

end

/-- `*value` in a call: its items. -/
def star (S : SpecialMethods) : PyVal → Except Exc (List PyVal)
  | tuple items | list items => .ok items
  | dict items => .ok (items.map Prod.fst)
  | str s => .ok (s.map fun b => str [b])
  | unicode s => .ok (s.map fun c => unicode [c])
  | «instance» cls attrs => S.iter («instance» cls attrs)
  | _ => .error { cls := .typeError, msg := "argument after * must be an iterable" }

/-- `**value` in a call: its items, whose keys must be strings. -/
def starStar (S : SpecialMethods) (value : PyVal) : Except Exc (List (PyVal × PyVal)) := do
  let items ←
    match value with
    | dict items => .ok items
    | «instance» cls attrs => S.items («instance» cls attrs)
    | _ => .error { cls := .typeError, msg := "argument after ** must be a mapping" }
  if items.all (fun item => item.1.isBasestring) then .ok items
  else .error { cls := .typeError, msg := "keywords must be strings" }

/-- `str(value)`; `BaseError.__str__` for the exceptions of the program. -/
def toStr (S : SpecialMethods) : PyVal → Except Exc (List UInt8)
  | str s => .ok s
  | unicode s =>
    if s.all (fun c => c.toNat < 128) then .ok (s.map fun c => UInt8.ofNat c.toNat)
    else .error { cls := .unicodeError, msg := "'ascii' codec can't encode characters" }
  | baseError _ msg => do
    let text ← toStr S msg
    return bytes msg.typeName ++ bytes ": " ++ text
  | value => S.str value

/-- `unicode(value)`: its `str` has to decode as ASCII. -/
def toUnicode (S : SpecialMethods) : PyVal → Except Exc (List Char)
  | unicode s => .ok s
  | value => do
    let s ← toStr S value
    if s.all (· < 128) then .ok (s.map fun b => Char.ofNat b.toNat)
    else .error { cls := .unicodeError, msg := "'ascii' codec can't decode byte" }

/-- `isinstance(value, unicode)` -/
def isUnicode : PyVal → Bool
  | unicode _ => true
  | _ => false

/-- `"start%sbetween%send" % (value, other)`: a `unicode` when one of them is one. -/
def format (S : SpecialMethods) (start between stop : String) (value other : PyVal) :
    Except Exc PyVal :=
  if value.isUnicode || other.isUnicode then do
    let a ← toUnicode S value
    let b ← toUnicode S other
    return unicode (start.toList ++ a ++ between.toList ++ b ++ stop.toList)
  else do
    let a ← toStr S value
    let b ← toStr S other
    return str (bytes start ++ a ++ bytes between ++ b ++ bytes stop)

end PyVal

end SummerRpc
