import LogExport.Yaml.Value

/-! Settings that say by their `type` which kind of thing they describe. They are
written as a mapping, or as a sequence of the kind and its fields in order. -/

namespace LogExport

open Yaml

/-- How a kind is told: by its name, or by its number among the kinds. -/
inductive KindMark where
  | name (s : String)
  | number (n : Nat)
deriving DecidableEq, Repr

structure Tagged where
  kind : KindMark
  /-- The fields under their names, or all in order. -/
  body : List (Value × Value) ⊕ List Value

namespace Tagged

def isTypeKey : Value → Bool
  | .text s => s = "type"
  | _ => false

def kindOf? : Value → Option KindMark
  | .text s => some (.name s)
  | .nat n => some (.number n)
  | _ => none

/-- Settings within others. -/
def ofValue? : Value → Option Tagged
  | .map es =>
    match es.partition fun e => isTypeKey e.1 with
    | ([(_, k)], rest) => do return ⟨← kindOf? k, .inl rest⟩
    | _ => none
  | .list (k :: items) => do return ⟨← kindOf? k, .inr items⟩
  | _ => none

/-- The text of a scalar, whatever it means. -/
def scalarText? (d : Document) (x : Node) : Option String :=
  match d.resolve x with
  | .scalar _ _ s => some s
  | _ => none

/-- Settings that stand on their own, nested at most so deep. Here the kind is
told by a text of any meaning. -/
def ofNode? (d : Document) : Nat → Node → Option Tagged
  | 0, _ => none
  | room + 1, x =>
    match d.resolve x with
    | .mapping tag es => do
      if Value.isOwnTag tag then none
      let es ← es.mapM fun (k, v) => do
        let k ← Value.ofNode? d room k
        let v ← if isTypeKey k then (scalarText? d v).map .text else Value.ofNode? d room v
        return (k, v)
      ofValue? (.map es)
    | .sequence tag (k :: items) => do
      if Value.isOwnTag tag then none
      let k ← scalarText? d k
      let items ← items.mapM (Value.ofNode? d room)
      return ⟨.name k, .inr items⟩
    | _ => none

/-- The number of the kind among those that there are. -/
def choose? (t : Tagged) (kinds : List String) : Option Nat :=
  match t.kind with
  | .name s => kinds.findIdx? (· = s)
  | .number n => if n < kinds.length then some n else none

/-- The number of the field that a key means; `none` inside if it means none. -/
def fieldOf? (names : List String) : Value → Option (Option Nat)
  | .text s => some (names.findIdx? (· = s))
  | .nat n => some (if n < names.length then some n else none)
  | _ => none

/-- Puts each value in its place, once. -/
def place? (names : List String) :
    List (Option Value) → List (Value × Value) → Option (List (Option Value))
  | acc, [] => some acc
  | acc, (k, v) :: es => do
    match ← fieldOf? names k with
    | some i => if (acc[i]?.join).isSome then none else place? names (acc.set i (some v)) es
    | none => place? names acc es

/-- The values of the named fields. Others are passed over in a mapping, and
there may be none in a sequence. -/
def fields? (t : Tagged) (names : List String) : Option (List (Option Value)) :=
  match t.body with
  | .inl es => place? names (List.replicate names.length none) es
  | .inr items =>
    if items.length ≤ names.length then
      some (items.map some ++ List.replicate (names.length - items.length) none)
    else none

/-- Whether a kind without fields may be written so. -/
def isBare (t : Tagged) : Bool :=
  match t.body with
  | .inl _ => true
  | .inr items => items.isEmpty

end Tagged

end LogExport
