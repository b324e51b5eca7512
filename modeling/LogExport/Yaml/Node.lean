import LogExport.Yaml.Token

/-! The tree of a document. A node that is repeated by its name is kept once, and
the places that repeat it point to it, also from within itself. -/

namespace LogExport.Yaml

inductive Node where
  | scalar (tag : Option String) (style : Style) (text : String)
  | sequence (tag : Option String) (items : List Node)
  | mapping (tag : Option String) (entries : List (Node × Node))
  /-- The named node of that number. -/
  | alias (number : Nat)
deriving Repr, Inhabited

structure Document where
  /-- Nothing if the text has no document. -/
  root : Option Node
  named : Array Node
deriving Repr

/-- The node itself, not a place that repeats it. -/
def Document.resolve (d : Document) : Node → Node
  | .alias k => d.named[k]?.getD (.alias k)
  | n => n

/-- What is left to read and what is known by name. -/
structure Parse where
  tokens : List Token
  handles : List (String × String) := []
  /-- The latest bearer of a name comes first. -/
  names : List (String × Nat) := []
  named : Array Node := #[]

abbrev Parser := StateT Parse Option

namespace Parser

def peek : Parser (Option Token) := do return (← get).tokens.head?

def skip : Parser Unit := modify fun p => { p with tokens := p.tokens.tail }

def fail {α : Type} : Parser α := fun _ => none

/-- What stands where nothing is written. -/
def blank : Node := .scalar none .plain ""

/-- The whole tag. -/
def resolveTag (handle suffix : String) : Parser String := do
  if handle.isEmpty then return suffix
  match (← get).handles.find? (·.1 = handle) with
  | some (_, base) => return base ++ suffix
  | none => fail

/-- Gives the next number to a name. -/
def bear (name : String) : Parser Nat := do
  let p ← get
  set { p with names := (name, p.named.size) :: p.names, named := p.named.push default }
  return p.named.size

/-- A name and a tag in either order, each at most once. -/
def properties : Parser (Option Nat × Option String) := do
  match ← peek with
  | some (.anchor a) =>
    skip
    match ← peek with
    | some (.tag h s) =>
      skip
      let t ← resolveTag h s
      return (some (← bear a), some t)
    | _ => return (some (← bear a), none)
  | some (.tag h s) =>
    skip
    match ← peek with
    | some (.anchor a) =>
      skip
      let t ← resolveTag h s
      return (some (← bear a), some t)
    | _ => return (none, some (← resolveTag h s))
  | _ => return (none, none)

def repeated (name : String) : Parser Node := do
  match (← get).names.find? (·.1 = name) with
  | some (_, k) => return .alias k
  | none => fail

/-- Whether the next token is one of these. -/
def nextIn (ts : List Token) : Parser Bool := do
  return match ← peek with
    | some t => ts.contains t
    | none => false

/-- Takes the token if it is next. -/
def accept (t : Token) : Parser Bool := do
  if ← nextIn [t] then do skip; return true else return false

mutual

/-- A node; `block` says whether it may be one of lines, and `level` whether
the entries of a sequence may stand at the column of what it belongs to. -/
def node : Nat → Bool → Bool → Parser Node
  | 0, _, _ => fail
  | n + 1, block, level => do
    match ← peek with
    | some (.alias a) =>
      skip
      repeated a
    | _ =>
      let (number, tag) ← properties
      let found ← content n block level tag (number.isSome || tag.isSome)
      match number with
      | some k => modify fun p => { p with named := p.named.setIfInBounds k found }
      | none => pure ()
      return found

/-- What follows a name and a tag. With either, nothing is enough. -/
def content : Nat → Bool → Bool → Option String → Bool → Parser Node
  | 0, _, _, _, _ => fail
  | n + 1, block, level, tag, marked => do
    match ← peek, block with
    | some (.scalar s style), _ =>
      skip
      return .scalar (if tag = some "!" then none else tag) style s
    | some .flowSequence, _ =>
      skip
      return .sequence tag (← flowItems n true)
    | some .flowMapping, _ =>
      skip
      return .mapping tag (← flowEntries n true)
    | some .blockSequence, true =>
      skip
      return .sequence tag (← blockItems n)
    | some .blockMapping, true =>
      skip
      return .mapping tag (← blockEntries n)
    | next, _ =>
      if level && next = some .entry then return .sequence tag (← levelItems n)
      else if marked then return .scalar tag .plain ""
      else fail

/-- A node, or nothing if one of the tokens comes next. -/
def nodeUnless : Nat → List Token → Bool → Bool → Parser Node
  | 0, _, _, _ => fail
  | n + 1, stops, block, level => do
    if ← nextIn stops then return blank else node n block level

def blockItems : Nat → Parser (List Node)
  | 0 => fail
  | n + 1 => do
    if ← accept .blockEnd then return []
    else if ← accept .entry then do
      let x ← nodeUnless n [.entry, .blockEnd] true false
      return x :: (← blockItems n)
    else fail

def levelItems : Nat → Parser (List Node)
  | 0 => fail
  | n + 1 => do
    if ← accept .entry then do
      let x ← nodeUnless n [.entry, .key, .value, .blockEnd] true false
      return x :: (← levelItems n)
    else return []

def blockEntries : Nat → Parser (List (Node × Node))
  | 0 => fail
  | n + 1 => do
    if ← accept .blockEnd then return []
    else if ← accept .key then do
      let k ← nodeUnless n [.key, .value, .blockEnd] true true
      let v ← if ← accept .value then nodeUnless n [.key, .value, .blockEnd] true true else pure blank
      return (k, v) :: (← blockEntries n)
    else fail

def flowItems : Nat → Bool → Parser (List Node)
  | 0, _ => fail
  | n + 1, first => do
    if ← accept .flowSequenceEnd then return []
    if !first then if !(← accept .comma) then fail
    if ← accept .flowSequenceEnd then return []
    let x ←
      if ← accept .key then do
        let e ← flowPair n
        pure (.mapping none [e])
      else node n false false
    return x :: (← flowItems n false)

/-- A single entry within a sequence. Where its key is not written, the sign
that stands there is passed over. -/
def flowPair : Nat → Parser (Node × Node)
  | 0 => fail
  | n + 1 => do
    let k ←
      if ← nextIn [.value, .comma, .flowSequenceEnd] then do
        skip
        pure blank
      else node n false false
    if ← accept .value then return (k, ← nodeUnless n [.comma, .flowSequenceEnd] false false)
    return (k, blank)

def flowEntries : Nat → Bool → Parser (List (Node × Node))
  | 0, _ => fail
  | n + 1, first => do
    if ← accept .flowMappingEnd then return []
    if !first then if !(← accept .comma) then fail
    if ← accept .flowMappingEnd then return []
    let e ←
      if ← accept .key then do
        let k ← nodeUnless n [.value, .comma, .flowMappingEnd] false false
        let v ←
          if ← accept .value then nodeUnless n [.comma, .flowMappingEnd] false false else pure blank
        pure (k, v)
      else do
        let k ← node n false false
        pure (k, blank)
    return e :: (← flowEntries n false)

end

/-- The directives in front of a document: at most one version, and one base
for a handle. Whether there were any. -/
def directives : Nat → Bool → List String → Parser Bool
  | 0, _, _ => fail
  | n + 1, versioned, seen => do
    match ← peek with
    | some (.version major minor) =>
      if versioned || major ≠ 1 || (minor ≠ 1 && minor ≠ 2) then fail
      skip
      directives n true seen
    | some (.handle h base) =>
      if seen.contains h then fail
      skip
      modify fun p => { p with handles := p.handles ++ [(h, base)] }
      directives n versioned (h :: seen)
    | _ => return versioned || !seen.isEmpty

/-- The only document of a text. -/
def document (n : Nat) : Parser (Option Node) := do
  let declared ← directives n false []
  modify fun p => { p with handles := p.handles ++ [("!", "!"), ("!!", "tag:yaml.org,2002:")] }
  if !declared && (← get).tokens.isEmpty then return none
  let root ←
    if ← accept .documentStart then
      if (← get).tokens.isEmpty then pure blank
      else nodeUnless n [.documentStart, .documentEnd] true false
    else if declared then fail
    else node n true false
  modify fun p => { p with tokens := p.tokens.dropWhile (· = .documentEnd) }
  if (← get).tokens.isEmpty then return some root else fail

end Parser

/-- The document of a text that has at most one. -/
def Document.read? (text : String) : Option Document := do
  let tokens ← tokens? text
  let (root, p) ← (Parser.document (4 * tokens.length + 8)).run { tokens }
  return { root, named := p.named }

end LogExport.Yaml
