import AuroraRl.Lib.Dict
import AuroraRl.Lib.Python

/-!
# Nested Python data

* `PyData` : what a JSON or TOML document holds; `PyDict` : the entries of one of its objects;
* `PyText` : `str(value)` and `json.loads`, which the models take from the interpreter;
* `PyData.iter`, `PyData.getAttr` : iteration and `.get` of a value of any type;
* `PyDict.get?`, `PyDict.set`, `PyDict.merge` : reading and writing an object;
* `sliceTo` : a slice from the start of a list.
-/

/-- A value of nested data. The keys of an object are distinct. -/
inductive PyData
  | none
  | bool (b : Bool)
  | int (n : Int)
  | float (text : String)
  | str (s : String)
  | list (l : List PyData)
  | dict (entries : List (String × PyData))

/-- The entries of an object, in insertion order. -/
abbrev PyDict := List (String × PyData)

/-- How the interpreter writes and reads nested data. -/
class PyText where
  str : PyData → String
  loads : String → Except PyException PyData

/-- An interpreter that writes texts only and reads no document. -/
@[reducible] def bareText : PyText where
  str
    | .str s => s
    | _ => ""
  loads _ := .error ⟨.valueError, "Expecting value: line 1 column 1 (char 0)"⟩

def sliceTo {α : Type} (l : List α) (n : Int) : List α :=
  if 0 ≤ n then l.take n.toNat else l.take (l.length - (-n).toNat)

theorem mem_of_mem_sliceTo {α : Type} {l : List α} {n : Int} {a : α} (h : a ∈ sliceTo l n) : a ∈ l := by
  unfold sliceTo at h
  split at h <;> exact List.mem_of_mem_take h

namespace PyDict

/-- `d.get(key)`, or whether `key in d`. -/
def get? (d : PyDict) (key : String) : Option PyData := Dict.getEntry key d

def set (d : PyDict) (key : String) (value : PyData) : PyDict := Dict.setEntry key value d

def merge (d d' : PyDict) : PyDict := d'.foldl (fun d e => d.set e.1 e.2) d

end PyDict

namespace PyData

def typeName : PyData → String
  | none => "NoneType"
  | bool _ => "bool"
  | int _ => "int"
  | float _ => "float"
  | str _ => "str"
  | list _ => "list"
  | dict _ => "dict"

def truthy : PyData → Bool
  | none => false
  | bool b => b
  | int n => n ≠ 0
  | float text => text ∉ ["0.0", "-0.0"]
  | str s => s ≠ ""
  | list l => !l.isEmpty
  | dict entries => !entries.isEmpty

/-- `value == s` for a text `s`. -/
def isStr (s : String) : PyData → Bool
  | str s' => s' = s
  | _ => false

def iter : PyData → Except PyException (List PyData)
  | list l => .ok l
  | str s => .ok (s.toList.map fun c => str (String.singleton c))
  | dict entries => .ok (entries.map fun e => str e.1)
  | value => .error ⟨.typeError, "'" ++ value.typeName ++ "' object is not iterable"⟩

/-- The object behind `value.get`. -/
def getAttr : PyData → Except PyException PyDict
  | dict entries => .ok entries
  | value => .error ⟨.attributeError, "'" ++ value.typeName ++ "' object has no attribute 'get'"⟩

/-- The key and the value of the `i`-th element behind `dict(value)`. -/
def toEntry (i : Nat) (element : PyData) : Except PyException (String × PyData) :=
  match element.iter with
  | .error _ => .error ⟨.typeError, "cannot convert dictionary update sequence element #" ++ toString i ++ " to a sequence"⟩
  | .ok [str key, value] => .ok (key, value)
  | .ok [_, _] => .error ⟨.typeError, "keywords must be strings"⟩
  | .ok items => .error ⟨.valueError, "dictionary update sequence element #" ++ toString i ++ " has length " ++
      toString items.length ++ "; 2 is required"⟩

/-- `dict(value)`, for use as keyword arguments. -/
def toDict : PyData → Except PyException PyDict
  | dict entries => .ok entries
  | value => do
    let elements ← value.iter
    let entries ← elements.zipIdx.mapM fun e => toEntry e.2 e.1
    return PyDict.merge [] entries

/-- `value is None`, also for a key that is missing. -/
def isNone : Option PyData → Bool
  | .none | some none => true
  | _ => false

end PyData
