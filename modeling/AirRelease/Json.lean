import AirRelease.Text.Digits

namespace AirRelease

-- A text is missing where half of a surrogate pair stands alone. What is read from a damaged text is
-- broken where the damage begins.
inductive Json
  | null
  | bool (b : Bool)
  | number (digits : List Char)
  | string (text : Option String)
  | array (items : List Json)
  | object (members : List (Option String × Json))
  | broken

namespace Json

instance : Inhabited Json :=
  ⟨null⟩

def ofString (s : String) : Json :=
  string (some s)

def ofNat (n : Nat) : Json :=
  number (Text.writeDecimal n)

-- An object with one member per field, in this order.
def ofFields (fields : List (String × Json)) : Json :=
  object (fields.map fun (name, value) => (some name, value))

def escapeChar (c : Char) : List Char :=
  match c with
  | '"' => ['\\', '"']
  | '\\' => ['\\', '\\']
  | '\x08' => ['\\', 'b']
  | '\t' => ['\\', 't']
  | '\n' => ['\\', 'n']
  | '\x0c' => ['\\', 'f']
  | '\r' => ['\\', 'r']
  | c =>
    if c.toNat < 0x20 then ['\\', 'u', '0', '0', Text.hexDigit (c.toNat / 16), Text.hexDigit c.toNat]
    else [c]

def quote (s : String) : List Char :=
  '"' :: s.toList.flatMap escapeChar ++ ['"']

def quoteKey (key : Option String) : List Char :=
  quote (key.getD "")

mutual

def write : Json → List Char
  | null | broken => "null".toList
  | bool b => (if b then "true" else "false").toList
  | number digits => digits
  | string text => quoteKey text
  | array items => '[' :: writeItems items ++ [']']
  | object members => '\x7b' :: writeMembers members ++ ['\x7d']

def writeItems : List Json → List Char
  | [] => []
  | [item] => item.write
  | item :: rest => item.write ++ ',' :: writeItems rest

def writeMembers : List (Option String × Json) → List Char
  | [] => []
  | [(key, value)] => quoteKey key ++ ':' :: value.write
  | (key, value) :: rest => quoteKey key ++ ':' :: value.write ++ ',' :: writeMembers rest

end

def newline (depth : Nat) : List Char :=
  '\n' :: List.replicate (2 * depth) ' '

mutual

-- Laid out with every item and member on a line of its own.
def layOut (depth : Nat) : Json → List Char
  | null | broken => "null".toList
  | bool b => (if b then "true" else "false").toList
  | number digits => digits
  | string text => quoteKey text
  | array [] => ['[', ']']
  | array items => '[' :: layOutItems (depth + 1) items ++ newline depth ++ [']']
  | object [] => ['\x7b', '\x7d']
  | object members => '\x7b' :: layOutMembers (depth + 1) members ++ newline depth ++ ['\x7d']

def layOutItems (depth : Nat) : List Json → List Char
  | [] => []
  | [item] => newline depth ++ item.layOut depth
  | item :: rest => newline depth ++ item.layOut depth ++ ',' :: layOutItems depth rest

def layOutMembers (depth : Nat) : List (Option String × Json) → List Char
  | [] => []
  | [(key, value)] => newline depth ++ quoteKey key ++ ':' :: ' ' :: value.layOut depth
  | (key, value) :: rest =>
    newline depth ++ quoteKey key ++ ':' :: ' ' :: value.layOut depth ++
      ',' :: layOutMembers depth rest

end

def line (j : Json) : String :=
  String.ofList j.write

def pretty (j : Json) : String :=
  String.ofList (j.layOut 0)

end Json
end AirRelease
