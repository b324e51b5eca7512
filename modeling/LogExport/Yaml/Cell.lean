/-! A text as its characters, each with its place. A line break of any kind is
one cell, so that columns and lines are all a reader of indentation needs. -/

namespace LogExport.Yaml

/-- A character at its place. `index` counts the characters of the text before it. -/
structure Cell where
  char : Char
  line : Nat
  column : Nat
  index : Nat
deriving DecidableEq, Repr

/-- The characters that end a line; the first stands for the usual ones. -/
def isBreak (c : Char) : Bool := c = '\n' || c = '\u2028' || c = '\u2029'

def isBlank (c : Char) : Bool := c = ' ' || c = '\t'

/-- Letters, digits, `_` and `-`. -/
def isWord (c : Char) : Bool :=
  c.isAlphanum || c = '_' || c = '-'

/-- Whether a text may contain the character at all. -/
def isAllowed (c : Char) : Bool :=
  let n := c.toNat
  n = 0x09 || n = 0x0A || n = 0x0D || (0x20 ≤ n && n ≤ 0x7E) || n = 0x85 ||
    (0xA0 ≤ n && n ≤ 0xD7FF) || (0xE000 ≤ n && n ≤ 0xFFFD) || 0x10000 ≤ n

namespace Cell

/-- The cells of a text that starts at the given place. -/
def ofChars : Nat → Nat → Nat → List Char → List Cell
  | _, _, _, [] => []
  | l, c, i, '\r' :: '\n' :: s => ⟨'\n', l, c, i⟩ :: ofChars (l + 1) 0 (i + 2) s
  | l, c, i, '\r' :: s => ⟨'\n', l, c, i⟩ :: ofChars (l + 1) 0 (i + 1) s
  | l, c, i, '\u0085' :: s => ⟨'\n', l, c, i⟩ :: ofChars (l + 1) 0 (i + 1) s
  | l, c, i, x :: s =>
    ⟨x, l, c, i⟩ :: if isBreak x then ofChars (l + 1) 0 (i + 1) s else ofChars l (c + 1) (i + 1) s

/-- The cells of a text, if it may be written at all. A byte order mark in
front takes a column and nothing more. -/
def ofText? (s : String) : Option (List Cell) :=
  if s.toList.all isAllowed then
    some <| match s.toList with
      | '\uFEFF' :: cs => ofChars 0 1 1 cs
      | cs => ofChars 0 0 0 cs
  else none

end Cell

/-- Whether nothing, a blank or a line break comes next. -/
def blankNext : List Cell → Bool
  | [] => true
  | c :: _ => isBlank c.char || isBreak c.char

/-- Whether a line starts with the mark `xxx` that begins or ends a document. -/
def markNext (x : Char) : List Cell → Bool
  | a :: b :: c :: cs => a.column = 0 && a.char = x && b.char = x && c.char = x && blankNext cs
  | _ => false

/-- Whether either mark comes next. -/
def anyMarkNext (cs : List Cell) : Bool := markNext '-' cs || markNext '.' cs

def charNext (p : Char → Bool) : List Cell → Bool
  | [] => false
  | c :: _ => p c.char

end LogExport.Yaml
