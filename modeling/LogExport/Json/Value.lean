import LogExport.Number.Binary64

/-! JSON values and their compact text. -/

namespace LogExport

/-- A whole number of 64 bits, signed or not, or a double. -/
inductive JsonNumber where
  | whole (n : Int)
  | double (x : Binary64)
deriving DecidableEq, Repr, Inhabited

inductive Json where
  | null
  | bool (b : Bool)
  | number (n : JsonNumber)
  | string (s : String)
  | array (items : List Json)
  | object (members : List (String × Json))
deriving Repr, Inhabited

namespace Json

/-- The escape of a control character or of one that ends a string. -/
def escaped (c : Char) : List Char :=
  if c = '"' then ['\\', '"']
  else if c = '\\' then ['\\', '\\']
  else if c = '\x08' then ['\\', 'b']
  else if c = '\x0c' then ['\\', 'f']
  else if c = '\n' then ['\\', 'n']
  else if c = '\r' then ['\\', 'r']
  else if c = '\t' then ['\\', 't']
  else if c.toNat < 0x20 then
    ['\\', 'u', '0', '0', Digits.hexDigit false (c.toNat / 16), Digits.hexDigit false (c.toNat % 16)]
  else [c]

/-- A string in quotes. -/
def quoted (s : String) : List Char := '"' :: (s.toList.flatMap escaped ++ ['"'])

end Json

def JsonNumber.text : JsonNumber → String
  | whole n => toString n
  | double x => x.text

namespace Json

/-- Texts with `sep` between them. -/
def joined (sep : Char) : List (List Char) → List Char
  | [] => []
  | [x] => x
  | x :: xs => x ++ sep :: joined sep xs

mutual

/-- The compact text of a value, members in their order. -/
def chars : Json → List Char
  | null => ['n', 'u', 'l', 'l']
  | bool true => ['t', 'r', 'u', 'e']
  | bool false => ['f', 'a', 'l', 's', 'e']
  | number n => n.text.toList
  | string s => quoted s
  | array xs => '[' :: joined ',' (itemChars xs) ++ [']']
  | object ms => '{' :: joined ',' (memberChars ms) ++ ['}']

def itemChars : List Json → List (List Char)
  | [] => []
  | x :: xs => chars x :: itemChars xs

def memberChars : List (String × Json) → List (List Char)
  | [] => []
  | (k, x) :: ms => (quoted k ++ ':' :: chars x) :: memberChars ms

end

def text (j : Json) : String := String.ofList j.chars

/-- Adds a member in the order of the keys' bytes; the last of one key stays. -/
def insertMember (k : String) (x : Json) : List (String × Json) → List (String × Json)
  | [] => [(k, x)]
  | (l, y) :: ms =>
    if k = l then (k, x) :: ms
    else if k < l then (k, x) :: (l, y) :: ms
    else (l, y) :: insertMember k x ms

/-- A value with the members of every object in key order. -/
def ofMembers (ms : List (String × Json)) : Json :=
  object (ms.foldl (fun acc (k, x) => insertMember k x acc) [])

/-- The member of an object under a key. -/
def get? (j : Json) (key : String) : Option Json :=
  match j with
  | object ms => (ms.find? (·.1 == key)).map (·.2)
  | _ => none

def nat (n : Nat) : Json := number (.whole n)

def int (n : Int) : Json := number (.whole n)

def ofOption {α : Type} (f : α → Json) : Option α → Json
  | some a => f a
  | none => null

end Json

end LogExport
