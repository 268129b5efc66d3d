import Mathlib.Data.Nat.Notation

/-!
# JSON values

What is read of a decoded value: its fields, its strings, and its text in a JavaScript template.

* `Json.field?` — a field of an object;
* `Json.text` — a value in a template, `Json.textOf` with a value that may be `undefined`.
-/

namespace Codec

/-- A number is kept as JavaScript writes it. -/
inductive Json where
  | null
  | bool (b : Bool)
  | number (literal : List Char)
  | string (s : List Char)
  | array (items : List Json)
  | object (fields : List (List Char × Json))

namespace Json

/-- A field of an object; nothing else has fields. -/
def field? : Json → List Char → Option Json
  | .object fields, name => fields.lookup name
  | _, _ => none

def string? : Json → Option (List Char)
  | .string s => some s
  | _ => none

def isObject : Json → Bool
  | .object _ => true
  | _ => false

mutual

/-- `Array.prototype.join`. -/
def join : List Json → List Char
  | [] => []
  | [item] => item.element
  | item :: items => item.element ++ ',' :: join items

/-- A value as an item of an array, where `null` is empty. -/
def element : Json → List Char
  | .null => []
  | .bool true => ['t', 'r', 'u', 'e']
  | .bool false => ['f', 'a', 'l', 's', 'e']
  | .number literal => literal
  | .string s => s
  | .array items => join items
  | .object _ => ['[', 'o', 'b', 'j', 'e', 'c', 't', ' ', 'O', 'b', 'j', 'e', 'c', 't', ']']

end

/-- A value in a template. -/
def text : Json → List Char
  | .null => ['n', 'u', 'l', 'l']
  | value => value.element

/-- A value that may be `undefined`, in a template. -/
def textOf : Option Json → List Char
  | none => ['u', 'n', 'd', 'e', 'f', 'i', 'n', 'e', 'd']
  | some value => value.text

end Json

end Codec
