import LogExport.Json.Numeral
import LogExport.Time.Stamp

/-! Reading JSON with expectations. Members are met in the order of the text,
and the first fault ends the reading: either the text is malformed there, or
what it says is not what was expected. -/

namespace LogExport

inductive ReadFault where
  /-- The text is not JSON. -/
  | malformed
  /-- The text is JSON of another shape or meaning. -/
  | unexpected
deriving DecidableEq, Repr

abbrev Reader (α : Type) := Syntax → Except ReadFault α

namespace Syntax

mutual

/-- Whether the text breaks off inside. -/
def isBroken : Syntax → Bool
  | broken => true
  | array xs => anyBroken xs
  | object ms => anyMemberBroken ms
  | _ => false

def anyBroken : List Syntax → Bool
  | [] => false
  | x :: xs => isBroken x || anyBroken xs

def anyMemberBroken : List (Option String × Syntax) → Bool
  | [] => false
  | (_, x) :: ms => isBroken x || anyMemberBroken ms

end

/-- What to say of a value of a wrong kind. -/
def mismatch : Syntax → ReadFault
  | broken => .malformed
  | string none => .malformed
  | number n => if n.value?.isNone then .malformed else .unexpected
  | _ => .unexpected

def readText : Reader String
  | string (some s) => .ok s
  | x => .error x.mismatch

def readBool : Reader Bool
  | bool b => .ok b
  | x => .error x.mismatch

/-- A whole number of 64 bits without sign. -/
def readNat : Reader Nat
  | number n =>
    match n.value? with
    | some (.whole (.ofNat k)) => .ok k
    | some _ => .error .unexpected
    | none => .error .malformed
  | x => .error x.mismatch

def readStamp : Reader Stamp
  | string (some s) =>
    match Stamp.read? s with
    | some t => .ok t
    | none => .error .unexpected
  | x => .error x.mismatch

def readInstant : Reader Instant := fun x => (readStamp x).map Stamp.utc

/-- `null` or a value. -/
def readOption {α : Type} (r : Reader α) : Reader (Option α)
  | null => .ok none
  | x => (r x).map some

def readList {α : Type} (r : Reader α) : Reader (List α)
  | array xs => xs.mapM r
  | x => .error x.mismatch

mutual

/-- A value of any kind, nested less than `room` deep. -/
def readAny : Nat → Reader Json
  | _, null => .ok .null
  | _, bool b => .ok (.bool b)
  | _, number n =>
    match n.value? with
    | some v => .ok (.number v)
    | none => .error .malformed
  | _, string (some s) => .ok (.string s)
  | room, array xs => if room ≤ 1 then .error .malformed else (readAnys (room - 1) xs).map .array
  | room, object ms =>
    if room ≤ 1 then .error .malformed else (readAnyMembers (room - 1) ms).map Json.ofMembers
  | _, _ => .error .malformed

def readAnys : Nat → List Syntax → Except ReadFault (List Json)
  | _, [] => .ok []
  | room, x :: xs => do
    let y ← readAny room x
    let ys ← readAnys room xs
    return y :: ys

def readAnyMembers : Nat → List (Option String × Syntax) → Except ReadFault (List (String × Json))
  | _, [] => .ok []
  | _, (none, _) :: _ => .error .malformed
  | room, (some k, x) :: ms => do
    let y ← readAny room x
    let ys ← readAnyMembers room ms
    return (k, y) :: ys

end

/-- How deep values may nest. -/
def maxDepth : Nat := 128

variable {δ : Type}

/-- The members of a record in the order of the text. Those without a name in
`names` are passed over, and none may come twice. -/
def readMembersOf (names : List String) (set : String → Syntax → δ → Except ReadFault δ) :
    List String → List (Option String × Syntax) → δ → Except ReadFault δ
  | _, [], d => .ok d
  | _, (none, _) :: _, _ => .error .malformed
  | seen, (some k, x) :: ms, d =>
    if k ∈ names then
      if k ∈ seen then .error .unexpected
      else do
        let d ← set k x d
        readMembersOf names set (k :: seen) ms d
    else if x.isBroken then .error .malformed
    else readMembersOf names set seen ms d

/-- The fields of a record in the order of their names, and no more. `rest`
says what to do if the array ends early. -/
def readFieldsOf (set : String → Syntax → δ → Except ReadFault δ) (early : String → Except ReadFault Unit) :
    List String → List Syntax → δ → Except ReadFault δ
  | [], [], d => .ok d
  | [], _ :: _, _ => .error .malformed
  | n :: ns, [], d => do
    early n
    readFieldsOf set early ns [] d
  | n :: ns, x :: xs, d => do
    let d ← set n x d
    readFieldsOf set early ns xs d

/-- A record as an object, or as an array of its fields. -/
def readRecord (names : List String) (set : String → Syntax → δ → Except ReadFault δ)
    (early : String → Except ReadFault Unit) (d : δ) : Reader δ
  | object ms => readMembersOf names set [] ms d
  | array xs => readFieldsOf set early names xs d
  | x => .error x.mismatch

/-- A record whose array form must be complete. -/
def allPresent (_ : String) : Except ReadFault Unit := .error .unexpected

/-- A field that must have been read. -/
def required {α : Type} : Option α → Except ReadFault α
  | some a => .ok a
  | none => .error .unexpected

/-- Reads a whole text: after the value only space may follow. -/
def readAll {α : Type} (r : Reader α) (s : String) : Except ReadFault α := do
  let (x, clean) := read s
  let a ← r x
  if clean then return a else throw .malformed

end Syntax

/-- Reads any JSON value. -/
def Json.read? (s : String) : Option Json := (Syntax.readAll (Syntax.readAny Syntax.maxDepth) s).toOption

end LogExport
