import LogExport.Text.Digits
import LogExport.Yaml.Cell

/-! The texts of scalars: plain, in quotes, and as blocks of lines. Space
between words is kept within a line and folded over a line break. -/

namespace LogExport.Yaml

/-- What has been read since the last word. -/
structure Gap where
  /-- Blanks before the first line break. -/
  blanks : String := ""
  breaks : List Char := []
  /-- Whether the first line break was written only to be left out. -/
  joined : Bool := false
deriving DecidableEq, Repr

namespace Gap

def isEmpty (g : Gap) : Bool := g.blanks.isEmpty && g.breaks.isEmpty && !g.joined

def addBlank (g : Gap) (c : Char) : Gap :=
  if g.breaks.isEmpty && !g.joined then { g with blanks := g.blanks.push c } else g

def addBreak (g : Gap) (c : Char) : Gap := { g with breaks := g.breaks ++ [c] }

/-- What a gap leaves between two words: one line break becomes a space, and
more leave all but the first. -/
def text (g : Gap) : String :=
  match g.joined, g.breaks with
  | true, bs => .ofList bs
  | false, [] => g.blanks
  | false, ['\n'] => " "
  | false, '\n' :: bs => .ofList bs
  | false, bs => .ofList bs

end Gap

def isFlowSign (c : Char) : Bool :=
  c = ',' || c = '[' || c = ']' || c = '\x7b' || c = '\x7d'

/-- A plain scalar: its text, whether line breaks follow it, and the rest.
`margin` is the least column at which it may go on. -/
def plain? (inFlow : Bool) (margin : Int) :
    Gap → String → List Cell → Option (String × Bool × List Cell)
  | g, s, [] => some (s, !g.breaks.isEmpty, [])
  | g, s, c :: cs =>
    let stop := some (s, !g.breaks.isEmpty, c :: cs)
    if isBreak c.char then plain? inFlow margin (g.addBreak c.char) s cs
    else if isBlank c.char then
      if !g.breaks.isEmpty && c.char = '\t' && (c.column : Int) < margin then none
      else plain? inFlow margin (g.addBlank c.char) s cs
    else if !g.isEmpty && c.char = '#' then stop
    else if !g.breaks.isEmpty &&
        (anyMarkNext (c :: cs) || (!inFlow && decide ((c.column : Int) < margin))) then stop
    else if inFlow && c.char = ':' && charNext (fun x => isFlowSign x || x = '?') cs then none
    else if (c.char = ':' && blankNext cs) || (inFlow && isFlowSign c.char) then stop
    else plain? inFlow margin {} ((s ++ g.text).push c.char) cs

/-- A text between single quotes, where a quote is written twice. -/
def singleQuoted? : Gap → String → List Cell → Option (String × List Cell)
  | _, _, [] => none
  | g, s, c :: cs =>
    if isBreak c.char then singleQuoted? (g.addBreak c.char) s cs
    else if isBlank c.char then singleQuoted? (g.addBlank c.char) s cs
    else if anyMarkNext (c :: cs) then none
    else if c.char = '\x27' then
      match cs with
      | d :: ds =>
        if d.char = '\x27' then singleQuoted? {} ((s ++ g.text).push '\x27') ds
        else some (s ++ g.text, cs)
      | [] => some (s ++ g.text, [])
    else singleQuoted? {} ((s ++ g.text).push c.char) cs

def escaped? : Char → Option Char
  | '0' => some '\x00'
  | 'a' => some '\x07'
  | 'b' => some '\x08'
  | 't' => some '\t'
  | '\t' => some '\t'
  | 'n' => some '\n'
  | 'v' => some '\x0b'
  | 'f' => some '\x0c'
  | 'r' => some '\r'
  | 'e' => some '\x1b'
  | ' ' => some ' '
  | '"' => some '"'
  | '/' => some '/'
  | '\\' => some '\\'
  | 'N' => some '\u0085'
  | '_' => some '\u00a0'
  | 'L' => some '\u2028'
  | 'P' => some '\u2029'
  | _ => none

def codeWidth? : Char → Option Nat
  | 'x' => some 2
  | 'u' => some 4
  | 'U' => some 8
  | _ => none

def charOfCode? (n : Nat) : Option Char :=
  if n.isValidChar then some (.ofNat n) else none

inductive QuoteState where
  | text
  | backslash
  /-- So many digits of a code are missing. -/
  | code (left value : Nat)
deriving DecidableEq, Repr

def doubleQuoted? : QuoteState → Gap → String → List Cell → Option (String × List Cell)
  | _, _, _, [] => none
  | .text, g, s, c :: cs =>
    if isBreak c.char then doubleQuoted? .text (g.addBreak c.char) s cs
    else if isBlank c.char then doubleQuoted? .text (g.addBlank c.char) s cs
    else if anyMarkNext (c :: cs) then none
    else if c.char = '"' then some (s ++ g.text, cs)
    else if c.char = '\\' then doubleQuoted? .backslash {} (s ++ g.text) cs
    else doubleQuoted? .text {} ((s ++ g.text).push c.char) cs
  | .backslash, _, s, c :: cs =>
    if isBreak c.char then doubleQuoted? .text { joined := true } s cs
    else match codeWidth? c.char with
      | some n => doubleQuoted? (.code n 0) {} s cs
      | none => do
        let x ← escaped? c.char
        doubleQuoted? .text {} (s.push x) cs
  | .code n v, g, s, c :: cs => do
    let d ← Digits.hexValue? c.char
    if n ≤ 1 then
      let x ← charOfCode? (16 * v + d)
      doubleQuoted? .text {} (s.push x) cs
    else doubleQuoted? (.code (n - 1) (16 * v + d)) g s cs

inductive Chomp where
  | strip
  | clip
  | keep
deriving DecidableEq, Repr

/-- The header of a block, after its sign: chomping, an indentation if given,
and the text from the next line on. -/
def blockHeader? (cs : List Cell) : Option (Chomp × Option Nat × List Cell) := do
  let chomp? : Char → Option Chomp
    | '+' => some .keep
    | '-' => some .strip
    | _ => none
  let takeChomp : List Cell → Option (Chomp × List Cell)
    | c :: r => (chomp? c.char).map (·, r)
    | [] => none
  let takeDigit : List Cell → Option (Nat × List Cell)
    | c :: r => if c.char.isDigit then some (c.char.toNat - 48, r) else none
    | [] => none
  let (chomp, indent, cs) :=
    match takeChomp cs with
    | some (k, r) =>
      match takeDigit r with
      | some (n, r) => (k, some n, r)
      | none => (k, none, r)
    | none =>
      match takeDigit cs with
      | some (n, r) =>
        match takeChomp r with
        | some (k, r) => (k, some n, r)
        | none => (.clip, some n, r)
      | none => (.clip, none, cs)
  if indent = some 0 then none
  let cs := cs.dropWhile fun c => isBlank c.char
  let cs := if charNext (· = '#') cs then cs.dropWhile fun c => !isBreak c.char else cs
  match cs with
  | [] => return (chomp, indent, [])
  | c :: r => if isBreak c.char then return (chomp, indent, r) else none

structure Block where
  folded : Bool
  chomp : Chomp
  /-- The column of the text, once known. -/
  indent : Option Nat
  /-- The least column it may have. -/
  least : Nat
  text : String := ""
  lineEnd : Option Char := none
  more : List Char := []
  blankLine : Bool := false
deriving DecidableEq, Repr

namespace Block

def inMargin (b : Block) (column : Nat) : Bool :=
  match b.indent with
  | none => true
  | some n => decide (column < n)

def close (b : Block) : String :=
  let line := (b.lineEnd.map Char.toString).getD ""
  match b.chomp with
  | .strip => b.text
  | .clip => b.text ++ line
  | .keep => b.text ++ line ++ .ofList b.more

/-- The text before a new line that starts with `c`. -/
def startLine (b : Block) (c : Char) : Block :=
  let fold := b.folded && b.lineEnd = some '\n' && !b.blankLine && !isBlank c
  let line := if fold then (if b.more.isEmpty then " " else "")
    else (b.lineEnd.map Char.toString).getD ""
  { b with
    text := b.text ++ line ++ .ofList b.more, lineEnd := none, more := [], blankLine := isBlank c }

/-- Reads on. `deepest` is none inside a line, and in a margin the largest
column met since the last line with text. -/
def read? : Block → Option Nat → List Cell → Option (String × List Cell)
  | b, _, [] => some (b.close, [])
  | b, none, c :: cs =>
    if isBreak c.char then read? { b with lineEnd := some c.char } (some 0) cs
    else read? { b with text := b.text.push c.char } none cs
  | b, some m, c :: cs =>
    if b.inMargin c.column && c.char = ' ' then read? b (some m) cs
    else
      let m := max m c.column
      if b.inMargin c.column && c.char = '\t' then none
      else if isBreak c.char then read? { b with more := b.more ++ [c.char] } (some m) cs
      else
        let n := b.indent.getD (max m b.least)
        if c.column = n then
          let b := { b.startLine c.char with indent := some n }
          read? { b with text := b.text.push c.char } none cs
        else some (b.close, c :: cs)

end Block

/-- A block of lines after its sign. `indent` is the indentation of what it
belongs to. -/
def block? (folded : Bool) (indent : Int) (cs : List Cell) : Option (String × List Cell) := do
  let (chomp, step, cs) ← blockHeader? cs
  let base := if 0 ≤ indent then indent.toNat else 0
  let b : Block :=
    { folded, chomp, indent := step.map (base + ·), least := max (indent + 1).toNat 1 }
  b.read? (some 0) cs

end LogExport.Yaml
