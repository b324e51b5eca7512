import LogExport.Number.Binary64
import LogExport.Yaml.Node

/-! What nodes mean where nothing in particular is expected: a plain scalar may
be nothing, a truth value or a number, and any other scalar is a text. -/

namespace LogExport.Yaml

inductive Value where
  | null
  | bool (b : Bool)
  /-- A whole number of 64 bits without sign. -/
  | nat (n : Nat)
  | negative (n : Nat)
  | float
  | text (s : String)
  | list (items : List Value)
  | map (entries : List (Value × Value))
deriving Repr

/-- The digits of a base that may be told from decimal ones. -/
def based? (mark : Char) : Option (Nat × (Char → Option Nat)) :=
  match mark with
  | 'x' => some (16, Digits.hexValue?)
  | 'o' => some (8, fun c => if c < '8' then Digits.value? c else none)
  | 'b' => some (2, fun c => if c < '2' then Digits.value? c else none)
  | _ => none

def digits? (base : Nat) (value? : Char → Option Nat) (cs : List Char) : Option Nat :=
  if cs.isEmpty then none
  else (cs.mapM value?).map fun ds => ds.foldl (fun n d => base * n + d) 0

/-- Digits after a first zero make no number. -/
def isPadded : List Char → Bool
  | '0' :: c :: cs => (c :: cs).all Digits.isDigit
  | _ => false

/-- A whole number without sign. -/
def magnitude? : List Char → Option Nat
  | '0' :: c :: cs =>
    match based? c with
    | some (base, value?) => digits? base value? cs
    | none => if isPadded ('0' :: c :: cs) then none else digits? 10 Digits.value? ('0' :: c :: cs)
  | cs => digits? 10 Digits.value? cs

def dropPlus : List Char → List Char
  | '+' :: cs => cs
  | cs => cs

/-- A whole number of 64 bits without sign. -/
def nat? (s : String) : Option Nat := do
  let n ← magnitude? (dropPlus s.toList)
  if n < 1 <<< 64 then return n else none

/-- Whether ± `ds · 10 ^ e` is within the range of doubles. -/
def inRange (ds : List Char) (e : Int) : Bool :=
  let ds := ds.dropWhile (· = '0')
  let size := (ds.length : Int) + e
  ds.isEmpty || decide (size < 0) ||
    (decide (size ≤ 310) &&
      (Binary64.round false (Digits.number ds * Nat.pow 10 e.toNat)
        (Nat.pow 10 (-e).toNat)).isSome)

def exponent? (cs : List Char) : Option Int :=
  match cs with
  | '+' :: cs => (digits? 10 Digits.value? cs).map Int.ofNat
  | '-' :: cs => (digits? 10 Digits.value? cs).map fun n => -Int.ofNat n
  | cs => (digits? 10 Digits.value? cs).map Int.ofNat

/-- Whether a text is a decimal number without sign in the range of doubles. -/
def isDecimal (cs : List Char) : Bool :=
  let (whole, cs) := cs.span Digits.isDigit
  let (frac, cs) :=
    match cs with
    | '.' :: cs => cs.span Digits.isDigit
    | _ => ([], cs)
  let exp? :=
    match cs with
    | [] => some 0
    | 'e' :: cs => exponent? cs
    | 'E' :: cs => exponent? cs
    | _ => none
  match exp? with
  | some e => !(whole.isEmpty && frac.isEmpty) && inRange (whole ++ frac) (e - frac.length)
  | none => false

/-- Whether a text is a number with a fraction, or one of those beyond all. -/
def isFloat (s : String) : Bool :=
  let infinite := [".inf", ".Inf", ".INF"]
  infinite.contains s || [".nan", ".NaN", ".NAN"].contains s ||
    match s.toList with
    | '+' :: cs => infinite.contains (.ofList cs) || isDecimal cs
    | '-' :: cs => infinite.contains (.ofList cs) || isDecimal cs
    | cs => isDecimal cs

def isNull (s : String) : Bool := ["~", "null", "Null", "NULL"].contains s

def bool? (s : String) : Option Bool :=
  if ["true", "True", "TRUE"].contains s then some true
  else if ["false", "False", "FALSE"].contains s then some false
  else none

namespace Value

/-- A whole number, if it is one; of those beyond 64 bits nothing can be made
up to 128 bits, and beyond that they are no whole numbers. -/
def ofWhole? (s : String) : Option (Option Value) :=
  match s.toList with
  | '-' :: cs => do
    let n ← magnitude? cs
    if n ≤ 1 <<< 63 then some (some (.negative n))
    else if n ≤ 1 <<< 127 then some none
    else none
  | cs => do
    let n ← magnitude? (dropPlus cs)
    if n < 1 <<< 64 then some (some (.nat n))
    else if n < 1 <<< 128 then some none
    else none

/-- What a plain scalar means. -/
def ofPlain? (s : String) : Option Value :=
  if s.isEmpty || isNull s then some .null
  else match bool? s with
    | some b => some (.bool b)
    | none =>
      match ofWhole? s with
      | some v => v
      | none =>
        if !isPadded (dropSign s.toList) && isFloat s then some .float else some (.text s)
where
  dropSign : List Char → List Char
    | '+' :: cs => cs
    | '-' :: cs => cs
    | cs => cs

/-- What a scalar means with its tag. Tags of this document alone mean nothing. -/
def ofScalar? (tag : Option String) (style : Style) (s : String) : Option Value :=
  match tag with
  | none => if style = .plain then ofPlain? s else some (.text s)
  | some "tag:yaml.org,2002:bool" => (bool? s).map .bool
  | some "tag:yaml.org,2002:int" => (ofWhole? s).join
  | some "tag:yaml.org,2002:float" => if isFloat s then some .float else none
  | some "tag:yaml.org,2002:null" => if isNull s then some .null else none
  | some t => if t.startsWith "!" then none else some (.text s)

/-- Whether a tag belongs to this document alone. -/
def isOwnTag (tag : Option String) : Bool := tag.any (·.startsWith "!")

/-- The value of a node, if it is nested at most so deep. -/
def ofNode? (d : Document) : Nat → Node → Option Value
  | 0, x =>
    match d.resolve x with
    | .scalar tag style s => ofScalar? tag style s
    | _ => none
  | room + 1, x =>
    match d.resolve x with
    | .scalar tag style s => ofScalar? tag style s
    | .sequence tag items =>
      if isOwnTag tag then none else (items.mapM (ofNode? d room)).map .list
    | .mapping tag entries =>
      if isOwnTag tag then none
      else (entries.mapM fun (k, v) => do
        let k ← ofNode? d room k
        let v ← ofNode? d room v
        return (k, v)).map .map
    | .alias _ => none

end Value

end LogExport.Yaml
