import LogExport.Yaml.Scalar

/-! The signs of a document: brackets, entries, keys and scalars, with the ends
of indented blocks made visible. A key without a sign of its own is known only
by the colon after it, so what may turn out to be a key gets an empty slot in
front, to be filled when the colon comes. -/

namespace LogExport.Yaml

inductive Style where
  | plain
  | quoted
  | literal
  | folded
deriving DecidableEq, Repr

inductive Token where
  | version (major minor : Nat)
  /-- Tags with this handle begin with `base`. -/
  | handle (name base : String)
  | documentStart
  | documentEnd
  | blockSequence
  | blockMapping
  | blockEnd
  | flowSequence
  | flowSequenceEnd
  | flowMapping
  | flowMappingEnd
  | entry
  | comma
  | key
  | value
  | alias (name : String)
  | anchor (name : String)
  | tag (handle suffix : String)
  | scalar (text : String) (style : Style)
deriving DecidableEq, Repr

/-- What may turn out to be a key. -/
structure KeyPlace where
  slot : Nat
  line : Nat
  column : Nat
  index : Nat
  /-- Whether nothing but a key can stand there. -/
  required : Bool
deriving DecidableEq, Repr

/-- A key is written on one line and is not too long. -/
def KeyPlace.isPast (k : KeyPlace) (c : Cell) : Bool :=
  decide (k.line < c.line) || decide (k.index + 1024 < c.index)

structure Scan where
  rest : List Cell
  /-- The column of the innermost block, `-1` outside all. -/
  indent : Int := -1
  outer : List Int := []
  keyAllowed : Bool := true
  /-- What may be a key within the innermost brackets. -/
  key : Option KeyPlace := none
  /-- The same for what is around them, one for each pair. -/
  outerKeys : List (Option KeyPlace) := []
  tokens : Array (List Token) := #[]
deriving DecidableEq, Repr

/-- Splits off the longest text of characters with the property. -/
def takeText (p : Char → Bool) (cs : List Cell) : String × List Cell :=
  (.ofList ((cs.takeWhile fun c => p c.char).map Cell.char), cs.dropWhile fun c => p c.char)

def skipBlanks (cs : List Cell) : List Cell := cs.dropWhile fun c => isBlank c.char

/-- Skips space, comments and line breaks, and says whether a key may follow. -/
def skipSpace (inFlow : Bool) : Bool → Bool → List Cell → Bool × List Cell
  | _, k, [] => (k, [])
  | comment, k, c :: cs =>
    if isBreak c.char then skipSpace inFlow false (k || !inFlow) cs
    else if comment then skipSpace inFlow true k cs
    else if c.char = ' ' || (c.char = '\t' && (inFlow || !k)) then skipSpace inFlow false k cs
    else if c.char = '#' then skipSpace inFlow true k cs
    else (k, c :: cs)

def shortNumber? (cs : List Cell) : Option (Nat × List Cell) :=
  let (ds, cs) := takeText Digits.isDigit cs
  if ds.isEmpty || 9 < ds.length then none else some (Digits.number ds.toList, cs)

/-- The handle at the start of a tag: `!`, `!!`, `!name!`, or `!` and the first
letters of a name. -/
def tagHandle? : List Cell → Option (String × List Cell)
  | c :: cs =>
    if c.char = '!' then
      let (name, cs) := takeText isWord cs
      match cs with
      | d :: ds => if d.char = '!' then some ("!" ++ name ++ "!", ds) else some ("!" ++ name, cs)
      | [] => some ("!" ++ name, [])
    else none
  | [] => none

def isTagChar (verbatim : Bool) (c : Char) : Bool :=
  isWord c || ";/?:@&=+$.%!~*\x27()".toList.contains c || (verbatim && ",[]".toList.contains c)

/-- How many bytes the character has that starts with the byte. -/
def encodedSize? (b : Nat) : Option Nat :=
  if b < 0x80 then some 1
  else if 0xC0 ≤ b && b < 0xE0 then some 2
  else if 0xE0 ≤ b && b < 0xF0 then some 3
  else if 0xF0 ≤ b && b < 0xF8 then some 4
  else none

/-- Whether every `%` starts a byte of an encoded character. `more` bytes of the
last one are missing. -/
def wellEscaped : Nat → List Char → Bool
  | 0, [] => true
  | _ + 1, [] => false
  | more, '%' :: a :: b :: cs =>
    match Digits.hexValue? a, Digits.hexValue? b with
    | some h, some l =>
      let v := 16 * h + l
      match more with
      | 0 =>
        match encodedSize? v with
        | some n => wellEscaped (n - 1) cs
        | none => false
      | m + 1 => decide (0x80 ≤ v ∧ v < 0xC0) && wellEscaped m cs
    | _, _ => false
  | _, '%' :: _ => false
  | 0, _ :: cs => wellEscaped 0 cs
  | _ + 1, _ :: _ => false

def tagText? (verbatim : Bool) (cs : List Cell) : Option (String × List Cell) :=
  let (s, r) := takeText (isTagChar verbatim) cs
  if wellEscaped 0 s.toList then some (s, r) else none

def tag? (inFlow : Bool) (cs : List Cell) : Option (Token × List Cell) := do
  let (t, r) ←
    match cs with
    | _ :: c :: r =>
      if c.char = '<' then do
        let (s, r) ← tagText? true r
        match r with
        | d :: r => if d.char = '>' && !s.isEmpty then some (Token.tag "" s, r) else none
        | [] => none
      else named cs
    | _ => named cs
  if blankNext r || (inFlow && charNext (· = ',') r) then return (t, r) else none
where
  named (cs : List Cell) : Option (Token × List Cell) := do
    let (h, r) ← tagHandle? cs
    if 1 < h.length && h.endsWith "!" then
      let (s, r) ← tagText? false r
      if s.isEmpty then none else return (.tag h s, r)
    else
      let (s, r) ← tagText? false r
      let s := String.ofList (h.toList.drop 1) ++ s
      return (if s.isEmpty then .tag "" "!" else .tag "!" s, r)

def directive? (cs : List Cell) : Option (Token × List Cell) := do
  let (name, cs) := takeText isWord cs
  if name.isEmpty || !blankNext cs then none
  let (t, cs) ←
    if name = "YAML" then do
      let (major, cs) ← shortNumber? (skipBlanks cs)
      if !charNext (· = '.') cs then none
      let (minor, cs) ← shortNumber? (cs.drop 1)
      some (Token.version major minor, cs)
    else if name = "TAG" then do
      let (h, cs) ← tagHandle? (skipBlanks cs)
      if !h.endsWith "!" then none
      if !charNext isBlank cs then none
      let (s, cs) ← tagText? true (skipBlanks cs)
      if s.isEmpty || !blankNext cs then none
      some (Token.handle h s, cs)
    else none
  let cs := skipBlanks cs
  let cs := if charNext (· = '#') cs then cs.dropWhile fun c => !isBreak c.char else cs
  match cs with
  | [] => return (t, [])
  | c :: r => if isBreak c.char then return (t, r) else none

namespace Scan

def inFlow (s : Scan) : Bool := !s.outerKeys.isEmpty

def push (s : Scan) (t : Token) : Scan := { s with tokens := s.tokens.push [t] }

def fill (s : Scan) (slot : Nat) (t : Token) : Scan :=
  { s with tokens := s.tokens.modify slot (t :: ·) }

/-- Forgets a key that can no longer be one. -/
def passKey (c : Cell) : Option KeyPlace → Option (Option KeyPlace)
  | none => some none
  | some k => if k.isPast c then (if k.required then none else some none) else some (some k)

def passKeys? (s : Scan) (c : Cell) : Option Scan := do
  let key ← passKey c s.key
  let outerKeys ← s.outerKeys.mapM (passKey c)
  return { s with key, outerKeys }

def dropKey? (s : Scan) : Option Scan :=
  if s.key.any KeyPlace.required then none else some { s with key := none }

/-- Leaves a slot in front of what may be a key. -/
def markKey? (s : Scan) (c : Cell) : Option Scan :=
  if s.keyAllowed then do
    let required := !s.inFlow && s.indent = c.column
    let s ← s.dropKey?
    return { s with
      key := some ⟨s.tokens.size, c.line, c.column, c.index, required⟩, tokens := s.tokens.push [] }
  else some s

/-- The blocks that end before a column: the column of the one that stays, those
around it, and how many end. -/
def endedBefore (column : Int) : Int → List Int → Int × List Int × Nat
  | i, [] => (i, [], 0)
  | i, o :: os =>
    if column < i then
      let (j, os, n) := endedBefore column o os
      (j, os, n + 1)
    else (i, o :: os, 0)

def endBlocks (s : Scan) (column : Int) : Scan :=
  if s.inFlow then s
  else
    let (indent, outer, n) := endedBefore column s.indent s.outer
    { s with indent, outer, tokens := s.tokens ++ (List.replicate n [Token.blockEnd]).toArray }

/-- Starts a block at a column that is further in, in the slot if one is given. -/
def startBlock (s : Scan) (column : Nat) (t : Token) (slot : Option Nat) : Scan :=
  if s.inFlow || decide ((column : Int) ≤ s.indent) then s
  else
    let s := { s with indent := column, outer := s.indent :: s.outer }
    match slot with
    | some i => s.fill i t
    | none => s.push t

/-- A sign that needs a place where a key may stand, in a block. -/
def startItem? (s : Scan) (c : Cell) (t : Token) : Option Scan :=
  if s.inFlow then some s else if s.keyAllowed then some (s.startBlock c.column t none) else none

/-- The colon after a key, or without one. -/
def colon? (s : Scan) (c : Cell) (cs : List Cell) : Option Scan := do
  let s ←
    match s.key with
    | some k =>
      let s := s.fill k.slot .key
      let s := s.startBlock k.column .blockMapping (some k.slot)
      some { s with key := none, keyAllowed := false }
    | none => do
      let s ← s.startItem? c .blockMapping
      some { s with keyAllowed := !s.inFlow }
  return { s.push .value with rest := cs }

def isPlainStart (inFlow : Bool) (c : Cell) (cs : List Cell) : Bool :=
  if c.char = '-' then !charNext isBlank cs
  else if c.char = '?' || c.char = ':' then !inFlow && !blankNext cs
  else !isBlank c.char && !",[]\x7b\x7d#&*!|>\x27\"%@\x60".toList.contains c.char

def openFlow? (s : Scan) (c : Cell) (cs : List Cell) (t : Token) : Option Scan := do
  let s ← s.markKey? c
  return { s.push t with
    rest := cs, key := none, outerKeys := s.key :: s.outerKeys, keyAllowed := true }

def closeFlow? (s : Scan) (cs : List Cell) (t : Token) : Option Scan := do
  let s ← s.dropKey?
  let s :=
    match s.outerKeys with
    | k :: ks => { s with key := k, outerKeys := ks }
    | [] => s
  return { s.push t with rest := cs, keyAllowed := false }

/-- A token that ends all blocks: a mark between documents or a directive. -/
def outside? (s : Scan) (cs : List Cell) (t : Token) : Option Scan := do
  let s ← (s.endBlocks (-1)).dropKey?
  return { s.push t with rest := cs, keyAllowed := false }

def name? (s : Scan) (c : Cell) (cs : List Cell) (t : String → Token) : Option Scan := do
  let s ← s.markKey? c
  let (n, r) := takeText isWord cs
  if n.isEmpty then none
  if !(blankNext r || charNext ("?:,]\x7d%@\x60".toList.contains ·) r) then none
  return { s.push (t n) with rest := r, keyAllowed := false }

def scalar? (s : Scan) (c : Cell) (style : Style) (t : Option (String × List Cell)) :
    Option Scan := do
  let s ← s.markKey? c
  let (text, r) ← t
  return { s.push (.scalar text style) with rest := r, keyAllowed := false }

/-- The next token, which starts with `c`. -/
def token? (s : Scan) (c : Cell) (cs : List Cell) : Option Scan :=
  let x := c.char
  let blank := blankNext cs
  if c.column = 0 && x = '%' then do
    let (t, r) ← directive? cs
    s.outside? r t
  else if markNext '-' (c :: cs) then s.outside? (cs.drop 2) .documentStart
  else if markNext '.' (c :: cs) then s.outside? (cs.drop 2) .documentEnd
  else if x = '[' then s.openFlow? c cs .flowSequence
  else if x = '\x7b' then s.openFlow? c cs .flowMapping
  else if x = ']' then s.closeFlow? cs .flowSequenceEnd
  else if x = '\x7d' then s.closeFlow? cs .flowMappingEnd
  else if x = ',' then do
    let s ← s.dropKey?
    return { s.push .comma with rest := cs, keyAllowed := true }
  else if x = '-' && blank then do
    let s ← (← s.startItem? c .blockSequence).dropKey?
    return { s.push .entry with rest := cs, keyAllowed := true }
  else if x = '?' && (s.inFlow || blank) then do
    let s ← (← s.startItem? c .blockMapping).dropKey?
    return { s.push .key with rest := cs, keyAllowed := !s.inFlow }
  else if x = ':' && (s.inFlow || blank) then s.colon? c cs
  else if x = '*' then s.name? c cs .alias
  else if x = '&' then s.name? c cs .anchor
  else if x = '!' then do
    let s ← s.markKey? c
    let (t, r) ← tag? s.inFlow (c :: cs)
    return { s.push t with rest := r, keyAllowed := false }
  else if (x = '|' || x = '>') && !s.inFlow then do
    let s ← s.dropKey?
    let (text, r) ← block? (x = '>') s.indent cs
    return { s.push (.scalar text (if x = '>' then .folded else .literal)) with
      rest := r, keyAllowed := true }
  else if x = '\x27' then s.scalar? c .quoted (singleQuoted? {} "" cs)
  else if x = '"' then s.scalar? c .quoted (doubleQuoted? .text {} "" cs)
  else if isPlainStart s.inFlow c cs then do
    let s ← s.markKey? c
    let (text, ended, r) ← plain? s.inFlow (s.indent + 1) {} "" (c :: cs)
    return { s.push (.scalar text .plain) with rest := r, keyAllowed := ended }
  else none

/-- All tokens; each takes at least one of `n` cells. -/
def run? : Nat → Scan → Option (List Token)
  | n, s =>
    let (keyAllowed, rest) := skipSpace s.inFlow false s.keyAllowed s.rest
    match n, rest with
    | _, [] => do
      let s ← (s.endBlocks (-1)).dropKey?
      return s.tokens.toList.flatten
    | 0, _ :: _ => none
    | n + 1, c :: cs => do
      let s ← { s with keyAllowed, rest }.passKeys? c
      let s ← (s.endBlocks c.column).token? c cs
      run? n s

end Scan

def tokens? (text : String) : Option (List Token) := do
  let cells ← Cell.ofText? text
  Scan.run? cells.length { rest := cells }

end LogExport.Yaml
