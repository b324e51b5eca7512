import LogExport.Toml.Line

/-! Which texts are TOML documents: tables of keys with values, where no key and
no table is given twice. -/

namespace LogExport.Toml

mutual

def skipValue? : Nat → List Char → Option (List Char)
  | 0, _ => none
  | n + 1, cs =>
    match cs with
    | '[' :: r => skipItems? n r
    | '\x7b' :: r => skipPairs? n [] (skipBlanks r)
    | '"' :: _ => skipText? cs
    | '\x27' :: _ => skipText? cs
    | _ => skipWord? cs

/-- Skips the items of an array, which may go over many lines. -/
def skipItems? : Nat → List Char → Option (List Char)
  | 0, _ => none
  | n + 1, cs => do
    match ← skipLines? cs.length cs with
    | ']' :: r => return r
    | cs =>
      let r ← skipValue? n cs
      match ← skipLines? r.length r with
      | ',' :: r => skipItems? n r
      | ']' :: r => return r
      | _ => none

/-- Skips the pairs of a table on one line. -/
def skipPairs? : Nat → List (List String) → List Char → Option (List Char)
  | 0, _, _ => none
  | n + 1, seen, cs =>
    match seen, cs with
    | [], '\x7d' :: r => some r
    | _, _ => do
      let (k, r) ← key? cs.length cs
      if seen.contains k then none
      let '=' :: r := r | none
      match skipBlanks (← skipValue? n (skipBlanks r)) with
      | ',' :: r => skipPairs? n (k :: seen) (skipBlanks r)
      | '\x7d' :: r => return r
      | _ => none

end

structure Given where
  path : List String
  isTable : Bool
deriving DecidableEq, Repr

/-- Reads the lines of a document below the table at a path. -/
def isDocumentFrom : Nat → List String → List Given → List Char → Bool
  | 0, _, _, cs => cs.isEmpty
  | n + 1, table, seen, cs =>
    match skipLines? cs.length cs with
    | none => false
    | some [] => true
    | some ('[' :: '[' :: r) =>
      match key? r.length r with
      | some (k, ']' :: ']' :: r) =>
        let seen := seen.filter fun g => !k.isPrefixOf g.path
        (lineEnd? r).any (isDocumentFrom n k seen)
      | _ => false
    | some ('[' :: r) =>
      match key? r.length r with
      | some (k, ']' :: r) =>
        !seen.any (·.path = k) && (lineEnd? r).any (isDocumentFrom n k (⟨k, true⟩ :: seen))
      | _ => false
    | some cs =>
      match key? cs.length cs with
      | some (k, '=' :: r) =>
        let path := table ++ k
        let clash := seen.any fun g => g.path = path || (!g.isTable && g.path.isPrefixOf path)
        !clash && ((skipValue? r.length (skipBlanks r)).bind lineEnd?).any
          (isDocumentFrom n table (⟨path, false⟩ :: seen))
      | _ => false

def isDocument (text : String) : Bool :=
  isDocumentFrom (text.length + 1) [] [] text.toList

end LogExport.Toml
