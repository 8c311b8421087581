import ProbeAgent.PyText

/-!
# Python values as `json.loads` returns them

The values a response body can decode to, and the operations the agent applies
to them before it knows their type: truth value, `d.get(key)`, `d[key]` and
`s.encode("utf-8")`, each with the exception Python raises when the value does
not support it.
-/

namespace ProbeAgent

open PyText

/-- A Python float: not a number, an infinity, or `± mantissa * 2 ^ exponent`. -/
inductive PyFloat
  | nan
  | inf (negative : Bool)
  | finite (negative : Bool) (mantissa : Nat) (exponent : Int)
deriving DecidableEq

/-- The values of `json.loads`.  A field that occurs twice counts once, by its
first occurrence in the list. -/
inductive Json
  | null
  | bool (b : Bool)
  | int (n : Int)
  | float (x : PyFloat)
  | str (s : PyStr)
  | arr (items : List Json)
  | obj (fields : List (PyStr × Json))

/-- The exceptions of the modelled code, by class. -/
inductive PyExc
  | keyError (key : PyStr)
  | attributeError (typeName attr : String)
  | typeError (message : String)
  | valueError (message : String)
  | unicodeEncodeError
  | unicodeDecodeError
  | fileNotFoundError (path : PyStr)
  /-- `OSError(errno, …)`, which Python builds as the subclass of that number. -/
  | osError (errno : Nat)
  | timeoutError
  | stopIteration
  | runtimeError (message : String)
  | sslError (message : String)
  /-- An exception of a third-party library, by its class name. -/
  | library (className : String)
deriving DecidableEq

/-- `errno.ETIMEDOUT`. -/
def etimedout : Nat := 110

/-- `isinstance(e, TimeoutError)`. -/
def PyExc.isTimeoutError : PyExc → Bool
  | .timeoutError => true
  | .osError errno => errno == etimedout
  | _ => false

namespace Json

/-- `type(v).__name__`. -/
def typeName : Json → String
  | null => "NoneType"
  | bool _ => "bool"
  | int _ => "int"
  | float _ => "float"
  | str _ => "str"
  | arr _ => "list"
  | obj _ => "dict"

/-- `bool(v)`. -/
def truthy : Json → Bool
  | null => false
  | bool b => b
  | int n => n != 0
  | float (.finite _ mantissa _) => mantissa != 0
  | float _ => true
  | str s => !s.isEmpty
  | arr items => !items.isEmpty
  | obj fields => !fields.isEmpty

/-- `v.get(key)`: None for a missing field, and only dictionaries have it. -/
def get (v : Json) (key : PyStr) : Except PyExc Json :=
  match v with
  | obj fields => .ok ((fields.lookup key).getD null)
  | v => .error (.attributeError v.typeName "get")

/-- `v.get(key, default)`. -/
def getD (v : Json) (key : PyStr) (default : Json) : Except PyExc Json :=
  match v with
  | obj fields => .ok ((fields.lookup key).getD default)
  | v => .error (.attributeError v.typeName "get")

/-- What `for x in v` goes through. -/
def iter (v : Json) : Except PyExc (List Json) :=
  match v with
  | arr items => .ok items
  | obj fields => .ok ((fields.map Prod.fst).eraseDups.map str)
  | str s => .ok (s.map fun c => str [c])
  | v => .error (.typeError s!"'{v.typeName}' object is not iterable")

/-- `v[key] = x` for a field that the dictionary has. -/
def setField (v : Json) (key : PyStr) (x : Json) : Json :=
  match v with
  | obj fields => obj (fields.map fun f => if f.1 = key then (key, x) else f)
  | v => v

/-- `v[key]` for a string key. -/
def index (v : Json) (key : PyStr) : Except PyExc Json :=
  match v with
  | obj fields =>
      match fields.lookup key with
      | some x => .ok x
      | none => .error (.keyError key)
  | arr _ => .error (.typeError "list indices must be integers or slices, not str")
  | str _ => .error (.typeError "string indices must be integers, not 'str'")
  | v => .error (.typeError s!"'{v.typeName}' object is not subscriptable")

/-- `v.encode("utf-8")`. -/
def encode (v : Json) : Except PyExc Bytes :=
  match v with
  | str s =>
      match encodeUtf8 s with
      | some b => .ok b
      | none => .error .unicodeEncodeError
  | v => .error (.attributeError v.typeName "encode")

/-- The value is a string that UTF-8 can carry. -/
def encodable (v : Json) : Bool :=
  match v.encode with
  | .ok _ => true
  | .error _ => false

theorem encodable_iff (v : Json) :
    v.encodable = true ↔ ∃ b, v.encode = .ok b := by
  unfold encodable
  cases v.encode with
  | ok b => simp
  | error e => simp

end Json

end ProbeAgent
