import LogExport.Json.Value

/-! JSON text taken apart without judging its meaning. A text that breaks off
gives the part before the break, so that a reader with expectations can say
whether it would have stopped earlier. -/

namespace LogExport

structure Numeral where
  neg : Bool
  whole : List Char
  frac : List Char
  exp : Option (Bool × List Char)
deriving DecidableEq, Repr

/-- A JSON text by its parts. -/
inductive Syntax where
  | null
  | bool (b : Bool)
  | number (n : Numeral)
  /-- A string; `none` if an escape in it names no character. -/
  | string (s : Option String)
  | array (items : List Syntax)
  | object (members : List (Option String × Syntax))
  /-- The text is malformed from here on. -/
  | broken
deriving Repr, Inhabited

namespace Syntax

def isSpace (c : Char) : Bool := c == ' ' || c == '\n' || c == '\t' || c == '\r'

def skip (cs : List Char) : List Char := cs.dropWhile isSpace

def unit? (a b c d : Char) : Option Nat := do
  let w ← Digits.hexValue? a
  let x ← Digits.hexValue? b
  let y ← Digits.hexValue? c
  let z ← Digits.hexValue? d
  return ((w * 16 + x) * 16 + y) * 16 + z

def plainEscape? (c : Char) : Option Char :=
  if c = '"' then some '"'
  else if c = '\\' then some '\\'
  else if c = '/' then some '/'
  else if c = 'b' then some '\x08'
  else if c = 'f' then some '\x0c'
  else if c = 'n' then some '\n'
  else if c = 'r' then some '\r'
  else if c = 't' then some '\t'
  else none

/-- The rest of a string after its opening quote, and what follows it. `high`
is a first surrogate that waits for its second, `sound` says whether all
escapes so far name characters. -/
def readString (acc : List Char) (high : Option Nat) (sound : Bool) :
    List Char → Option (Option String × List Char)
  | [] => none
  | '"' :: r =>
    some (if sound && high.isNone then some (String.ofList acc.reverse) else none, r)
  | '\\' :: 'u' :: a :: b :: c :: d :: r =>
    match unit? a b c d with
    | none => none
    | some n =>
      match high with
      | some h =>
        if 0xDC00 ≤ n ∧ n < 0xE000 then
          readString (Char.ofNat (0x10000 + (h - 0xD800) * 0x400 + (n - 0xDC00)) :: acc) none sound r
        else readString acc none false r
      | none =>
        if 0xD800 ≤ n ∧ n < 0xDC00 then readString acc (some n) sound r
        else if 0xDC00 ≤ n ∧ n < 0xE000 then readString acc none false r
        else readString (Char.ofNat n :: acc) none sound r
  | '\\' :: e :: r =>
    match plainEscape? e with
    | some c => readString (c :: acc) none (sound && high.isNone) r
    | none => none
  | c :: r =>
    if c.toNat < 0x20 || c == '\\' then none
    else readString (c :: acc) none (sound && high.isNone) r

def readDigits (cs : List Char) : Option (List Char × List Char) :=
  let ds := cs.takeWhile Digits.isDigit
  if ds.isEmpty then none else some (ds, cs.drop ds.length)

def readNumeral (neg : Bool) (cs : List Char) : Option (Numeral × List Char) := do
  let (whole, r) ← readDigits cs
  if whole.length > 1 ∧ whole.head? = some '0' then none
  let (frac, r) ← match r with
    | '.' :: r => readDigits r
    | r => some ([], r)
  match r with
  | e :: r' =>
    if e = 'e' ∨ e = 'E' then
      let (down, r') := match r' with
        | '-' :: s => (true, s)
        | '+' :: s => (false, s)
        | s => (false, s)
      let (ds, r') ← readDigits r'
      return (⟨neg, whole, frac, some (down, ds)⟩, r')
    else return (⟨neg, whole, frac, none⟩, r)
  | [] => return (⟨neg, whole, frac, none⟩, r)

/-- The rest after a word, if the text starts with it. -/
def afterWord (word cs : List Char) : Option (List Char) :=
  if word.isPrefixOf cs then some (cs.drop word.length) else none

def leaf (s : Syntax) : Option (List Char) → Syntax × Option (List Char)
  | some r => (s, some r)
  | none => (broken, none)

mutual

/-- One value and what follows it, if it does not break off. -/
def readValue : Nat → List Char → Syntax × Option (List Char)
  | 0, _ => (broken, none)
  | fuel + 1, cs =>
    match skip cs with
    | 'n' :: r => leaf null (afterWord ['u', 'l', 'l'] r)
    | 't' :: r => leaf (bool true) (afterWord ['r', 'u', 'e'] r)
    | 'f' :: r => leaf (bool false) (afterWord ['a', 'l', 's', 'e'] r)
    | '"' :: r =>
      match readString [] none true r with
      | some (s, r) => (string s, some r)
      | none => (broken, none)
    | '[' :: r =>
      match skip r with
      | ']' :: r => (array [], some r)
      | r => let (xs, rest) := readItems fuel [] r; (array xs, rest)
    | '{' :: r =>
      match skip r with
      | '}' :: r => (object [], some r)
      | r => let (ms, rest) := readMembers fuel [] r; (object ms, rest)
    | '-' :: r =>
      match readNumeral true r with
      | some (n, r) => (number n, some r)
      | none => (broken, none)
    | r =>
      match readNumeral false r with
      | some (n, r) => (number n, some r)
      | none => (broken, none)

/-- The items of an array that is not empty, after those in `acc`. -/
def readItems : Nat → List Syntax → List Char → List Syntax × Option (List Char)
  | 0, acc, _ => ((broken :: acc).reverse, none)
  | fuel + 1, acc, cs =>
    match readValue fuel cs with
    | (x, none) => ((x :: acc).reverse, none)
    | (x, some r) =>
      match skip r with
      | ']' :: r => ((x :: acc).reverse, some r)
      | ',' :: r => readItems fuel (x :: acc) r
      | _ => ((broken :: x :: acc).reverse, none)

/-- The members of an object that is not empty, after those in `acc`. -/
def readMembers : Nat → List (Option String × Syntax) → List Char →
    List (Option String × Syntax) × Option (List Char)
  | 0, acc, _ => (((none, broken) :: acc).reverse, none)
  | fuel + 1, acc, cs =>
    match skip cs with
    | '"' :: r =>
      match readString [] none true r with
      | none => (((none, broken) :: acc).reverse, none)
      | some (k, r) =>
        match skip r with
        | ':' :: r =>
          match readValue fuel r with
          | (x, none) => (((k, x) :: acc).reverse, none)
          | (x, some r) =>
            match skip r with
            | '}' :: r => (((k, x) :: acc).reverse, some r)
            | ',' :: r => readMembers fuel ((k, x) :: acc) r
            | _ => (((none, broken) :: (k, x) :: acc).reverse, none)
        | _ => (((k, broken) :: acc).reverse, none)
    | _ => (((none, broken) :: acc).reverse, none)

end

/-- A text and whether nothing but space follows the value. -/
def read (s : String) : Syntax × Bool :=
  let cs := s.toList
  match readValue (2 * cs.length + 2) cs with
  | (x, some r) => (x, (skip r).isEmpty)
  | (x, none) => (x, false)

end Syntax

end LogExport
