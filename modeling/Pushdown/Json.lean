/-
  Pushdown.Json — JSON values and their text: no spaces, the fields of an object in the
  order given, quotes, backslashes and control characters escaped, all else as it is.
-/

namespace Pushdown

inductive Json where
  | null
  | bool (value : Bool)
  | number (value : Nat)
  | string (value : String)
  | array (items : List Json)
  | object (fields : List (String × Json))

namespace Json

/-- The form of one character inside a JSON string. The control characters without a
    letter of their own are below U+0020, so two hexadecimal digits name them. -/
def escape (c : Char) : List Char :=
  if c = '"' || c = '\\' then ['\\', c]
  else if c = '\x08' then ['\\', 'b']
  else if c = '\x0c' then ['\\', 'f']
  else if c = '\n' then ['\\', 'n']
  else if c = '\r' then ['\\', 'r']
  else if c = '\t' then ['\\', 't']
  else if c.toNat < 0x20 then
    ['\\', 'u', '0', '0', Nat.digitChar (c.toNat / 16), Nat.digitChar (c.toNat % 16)]
  else [c]

def quote (text : String) : String :=
  String.ofList (['"'] ++ text.toList.flatMap escape ++ ['"'])

mutual

/-- The text of a value. -/
def render : Json → String
  | .null => "null"
  | .bool true => "true"
  | .bool false => "false"
  | .number n => Nat.repr n
  | .string s => quote s
  | .array items => "[" ++ ",".intercalate (itemTexts items) ++ "]"
  | .object fields => "\x7b" ++ ",".intercalate (fieldTexts fields) ++ "\x7d"

def itemTexts : List Json → List String
  | [] => []
  | item :: rest => item.render :: itemTexts rest

def fieldTexts : List (String × Json) → List String
  | [] => []
  | (name, value) :: rest => (quote name ++ ":" ++ value.render) :: fieldTexts rest

end

/-- A value that may be absent. -/
def ofOption {α : Type} (form : α → Json) (value : Option α) : Json := (value.map form).getD .null

def ofList {α : Type} (form : α → Json) (items : List α) : Json := .array (items.map form)

end Json

end Pushdown
