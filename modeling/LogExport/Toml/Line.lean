import LogExport.Text.Digits

/-! The lexical part of TOML: keys, texts, numbers and times. Each reader takes
what it knows from the front of a text and gives back the rest. -/

namespace LogExport.Toml

def isBlank (c : Char) : Bool := c = ' ' || c = '\t'

def skipBlanks (cs : List Char) : List Char := cs.dropWhile isBlank

/-- The rest after a line break, if there is one here. -/
def newline? : List Char → Option (List Char)
  | '\n' :: cs => some cs
  | '\r' :: '\n' :: cs => some cs
  | _ => none

/-- Characters that no comment and no text on one line holds. -/
def isControl (c : Char) : Bool := (c.toNat < 0x20 && c ≠ '\t') || c = '\x7f'

/-- Skips a comment up to the end of its line. -/
def comment? : List Char → Option (List Char)
  | '#' :: cs =>
    let rest := cs.dropWhile fun c => !isControl c
    if rest.isEmpty || (newline? rest).isSome then some rest else none
  | cs => some cs

/-- Skips blanks, line breaks and comments. -/
def skipLines? : Nat → List Char → Option (List Char)
  | 0, cs => some cs
  | n + 1, cs => do
    let cs ← comment? (skipBlanks cs)
    match newline? cs with
    | some r => skipLines? n r
    | none => return cs

/-- The rest after the line ends, which it may do after blanks and a comment. -/
def lineEnd? (cs : List Char) : Option (List Char) := do
  let cs ← comment? (skipBlanks cs)
  if cs.isEmpty then return [] else newline? cs

/-! ### Texts -/

/-- So many digits of the code of a character. -/
def code? : Nat → Nat → List Char → Option (Char × List Char)
  | 0, v, cs => if v.isValidChar then some (.ofNat v, cs) else none
  | n + 1, v, c :: cs => do code? n (16 * v + (← Digits.hexValue? c)) cs
  | _ + 1, _, [] => none

/-- What follows a backslash. -/
def escape? : List Char → Option (Char × List Char)
  | 'b' :: cs => some ('\x08', cs)
  | 't' :: cs => some ('\t', cs)
  | 'n' :: cs => some ('\n', cs)
  | 'f' :: cs => some ('\x0c', cs)
  | 'r' :: cs => some ('\r', cs)
  | '"' :: cs => some ('"', cs)
  | '\\' :: cs => some ('\\', cs)
  | 'u' :: cs => code? 4 0 cs
  | 'U' :: cs => code? 8 0 cs
  | _ => none

/-- The rest of a text on one line up to its closing quote. -/
def lineText? (quote : Char) : Nat → List Char → Option (String × List Char)
  | 0, _ => none
  | _, [] => none
  | n + 1, c :: cs =>
    if c = quote then some ("", cs)
    else if quote = '"' && c = '\\' then do
      let (x, cs) ← escape? cs
      let (s, cs) ← lineText? quote n cs
      return (String.singleton x ++ s, cs)
    else if isControl c then none
    else do
      let (s, cs) ← lineText? quote n cs
      return (String.singleton c ++ s, cs)

/-- Skips the rest of a text of many lines up to its three closing quotes, before
which two more may stand. -/
def skipLongText? (quote : Char) : Nat → List Char → Option (List Char)
  | 0, _ => none
  | _, [] => none
  | n + 1, c :: cs =>
    if c = quote then
      let run := (c :: cs).takeWhile (· = quote)
      let rest := (c :: cs).dropWhile (· = quote)
      if 3 ≤ run.length then (if run.length ≤ 5 then some rest else none)
      else skipLongText? quote n rest
    else if quote = '"' && c = '\\' then
      match newline? (skipBlanks cs) with
      | some r => skipLongText? quote n r
      | none => do skipLongText? quote n (← escape? cs).2
    else
      match newline? (c :: cs) with
      | some r => skipLongText? quote n r
      | none => if isControl c then none else skipLongText? quote n cs

/-- Skips a text of either kind that starts here. -/
def skipText? (cs : List Char) : Option (List Char) :=
  match cs with
  | '"' :: '"' :: '"' :: r => skipLongText? '"' r.length r
  | '\x27' :: '\x27' :: '\x27' :: r => skipLongText? '\x27' r.length r
  | '"' :: r => (lineText? '"' (r.length + 1) r).map (·.2)
  | '\x27' :: r => (lineText? '\x27' (r.length + 1) r).map (·.2)
  | _ => none

/-! ### Keys -/

def isBare (c : Char) : Bool := c.isAlphanum || c = '_' || c = '-'

def keyPart? (cs : List Char) : Option (String × List Char) :=
  match cs with
  | '"' :: r => lineText? '"' (r.length + 1) r
  | '\x27' :: r => lineText? '\x27' (r.length + 1) r
  | _ =>
    let s := cs.takeWhile isBare
    if s.isEmpty then none else some (.ofList s, cs.dropWhile isBare)

/-- A key: parts with dots between them. -/
def key? : Nat → List Char → Option (List String × List Char)
  | 0, _ => none
  | n + 1, cs => do
    let (p, cs) ← keyPart? (skipBlanks cs)
    match skipBlanks cs with
    | '.' :: r =>
      let (ps, r) ← key? n r
      return (p :: ps, r)
    | r => return ([p], r)

/-! ### Words -/

/-- Digits of a base, with single bars between them only. -/
def barred? (base : Nat) (cs : List Char) : Option Nat :=
  go false 0 cs
where
  go : Bool → Nat → List Char → Option Nat
    | after, v, [] => if after then some v else none
    | true, v, '_' :: cs => go false v cs
    | _, v, c :: cs => do
      let d ← Digits.hexValue? c
      if d < base then go true (base * v + d) cs else none

/-- A whole decimal number without needless zeros in front. -/
def decimal? (cs : List Char) : Option Nat :=
  match cs with
  | '0' :: _ :: _ => none
  | _ => barred? 10 cs

def unsigned : List Char → Bool × List Char
  | '-' :: cs => (true, cs)
  | '+' :: cs => (false, cs)
  | cs => (false, cs)

/-- A whole number of 64 bits with sign. -/
def isWhole (cs : List Char) : Bool :=
  match cs with
  | '0' :: 'x' :: r => (barred? 16 r).any (· < 1 <<< 63)
  | '0' :: 'o' :: r => (barred? 8 r).any (· < 1 <<< 63)
  | '0' :: 'b' :: r => (barred? 2 r).any (· < 1 <<< 63)
  | _ =>
    let (neg, r) := unsigned cs
    (decimal? r).any fun n => if neg then n ≤ 1 <<< 63 else n < 1 <<< 63

def isFloat (cs : List Char) : Bool :=
  let (_, r) := unsigned cs
  if r = "inf".toList || r = "nan".toList then true
  else
    let whole := r.takeWhile fun c => c ≠ '.' && c ≠ 'e' && c ≠ 'E'
    let r := r.drop whole.length
    let (frac, r) :=
      match r with
      | '.' :: r =>
        let f := r.takeWhile fun c => c ≠ 'e' && c ≠ 'E'
        (some f, r.drop f.length)
      | _ => (none, r)
    let exp :=
      match r with
      | _ :: r => some (unsigned r).2
      | [] => none
    (decimal? whole).isSome && (frac.isSome || exp.isSome) &&
      frac.all (barred? 10 · |>.isSome) && exp.all (barred? 10 · |>.isSome)

/-- Takes two digits of a number within bounds. -/
def two? (low high : Nat) : List Char → Option (List Char)
  | a :: b :: cs => do
    let n := 10 * (← Digits.value? a) + (← Digits.value? b)
    if low ≤ n && n ≤ high then some cs else none
  | _ => none

def date? (cs : List Char) : Option (List Char) := do
  let year := cs.take 4
  if year.length ≠ 4 || !year.all Digits.isDigit then none
  let '-' :: cs := cs.drop 4 | none
  let '-' :: cs ← two? 1 12 cs | none
  two? 1 31 cs

def time? (cs : List Char) : Option (List Char) := do
  let ':' :: cs ← two? 0 23 cs | none
  let ':' :: cs ← two? 0 59 cs | none
  match ← two? 0 60 cs with
  | '.' :: d :: r => if Digits.isDigit d then some (r.dropWhile Digits.isDigit) else none
  | r => some r

/-- Whether a text is an offset from universal time, or nothing. -/
def isOffset : List Char → Bool
  | [] => true
  | ['Z'] => true
  | ['z'] => true
  | c :: cs =>
    (c = '+' || c = '-') &&
      match two? 0 23 cs with
      | some (':' :: r) => two? 0 59 r = some []
      | _ => false

/-- Whether a text is a date, a time or both. -/
def isTime (cs : List Char) : Bool :=
  match date? cs with
  | none => time? cs = some []
  | some [] => true
  | some (c :: r) => (c = 'T' || c = 't' || c = ' ') && (time? r).any isOffset

def isWordChar (c : Char) : Bool :=
  c.isAlphanum || c = '_' || c = '-' || c = '+' || c = '.' || c = ':'

/-- Skips a value that is written without quotes and brackets. A date may have
a time after one blank. -/
def skipWord? (cs : List Char) : Option (List Char) :=
  let word := cs.takeWhile isWordChar
  let rest := cs.drop word.length
  let (word, rest) :=
    match date? word, rest with
    | some [], ' ' :: d :: r =>
      if Digits.isDigit d then
        let more := (d :: r).takeWhile isWordChar
        (word ++ ' ' :: more, (d :: r).drop more.length)
      else (word, rest)
    | _, _ => (word, rest)
  if word = "true".toList || word = "false".toList || isWhole word || isFloat word || isTime word then
    some rest
  else none

end LogExport.Toml
