import LogExport.Error
import LogExport.Text.Percent
import LogExport.Text.Pieces

/-! Which texts are absolute URLs. Only the parts that can make a text no URL are
looked at: the scheme, the host and the port. -/

namespace LogExport

namespace Url

def isAlpha (c : Char) : Bool := ('a' ≤ c && c ≤ 'z') || ('A' ≤ c && c ≤ 'Z')

/-- Controls and blanks around the text do not count, nor line breaks in it. -/
def cleaned (s : String) : List Char :=
  let edge (c : Char) := c.toNat ≤ 0x20
  ((s.toList.dropWhile edge).reverse.dropWhile edge).reverse.filter fun c =>
    c != '\t' && c != '\n' && c != '\r'

def scheme? (cs : List Char) : Option (String × List Char) :=
  let isSchemeChar (c : Char) := isAlpha c || Digits.isDigit c || c == '+' || c == '-' || c == '.'
  let word := cs.takeWhile isSchemeChar
  match word, cs.drop word.length with
  | c :: _, ':' :: rest =>
    if isAlpha c then some (String.ofList (word.map Char.toLower), rest) else none
  | _, _ => none

def special : List String := ["http", "https", "ws", "wss", "ftp"]

/-! ### Addresses as hosts -/

/-- A part of a numeric address: octal and hexadecimal are marked in front. -/
def number? (cs : List Char) : Option Nat :=
  let digits (base : Nat) (cs : List Char) : Option Nat :=
    cs.foldlM (fun n c => do
      let d ← Digits.hexValue? c
      if d < base then some (base * n + d) else none) 0
  match cs with
  | [] => none
  | '0' :: 'x' :: r => digits 16 r
  | '0' :: 'X' :: r => digits 16 r
  | '0' :: r => digits 8 r
  | r => digits 10 r

/-- The labels of a host, without an empty one at the end. -/
def labels (host : List Char) : List (List Char) :=
  let ls := pieces '.' host
  if 1 < ls.length ∧ ls.getLast? = some [] then ls.dropLast else ls

/-- Whether the last label is a number, so that the host must be an address. -/
def endsInNumber (host : List Char) : Bool :=
  match (labels host).getLast? with
  | some l => !l.isEmpty && (l.all Digits.isDigit || (number? l).isSome)
  | none => false

/-- Up to four numbers, of which the last fills the rest. -/
def isNumericAddress (host : List Char) : Bool :=
  match (labels host).mapM number? with
  | some ns =>
    ns.length ≤ 4 && ns.dropLast.all (· ≤ 255) &&
      (ns.getLast?.any fun n => n < Nat.pow 256 (5 - ns.length))
  | none => false

def isDotted (cs : List Char) : Bool :=
  let ls := pieces '.' cs
  ls.length == 4 && ls.all fun l =>
    !l.isEmpty && l.all Digits.isDigit && Digits.number l ≤ 255 && (l.length == 1 || l.head? != some '0')

/-- How many groups of an address a text between colons makes; dotted numbers
may stand last and make two. -/
def groups? : List (List Char) → Option Nat
  | [] => some 0
  | [g] =>
    if isDotted g then some 2
    else if 1 ≤ g.length ∧ g.length ≤ 4 ∧ g.all (Digits.hexValue? · |>.isSome) then some 1 else none
  | g :: gs =>
    if 1 ≤ g.length ∧ g.length ≤ 4 ∧ g.all (Digits.hexValue? · |>.isSome) then
      (groups? gs).map (· + 1)
    else none

/-- The parts before and after the first double colon. -/
def atGap (acc : List Char) : List Char → List Char × Option (List Char)
  | ':' :: ':' :: r => (acc.reverse, some r)
  | c :: r => atGap (c :: acc) r
  | [] => (acc.reverse, none)

/-- Eight groups between colons, or fewer with one gap. -/
def isGroupedAddress (cs : List Char) : Bool :=
  let count (x : List Char) (last : Bool) : Option Nat :=
    if x.isEmpty then some 0
    else
      let gs := pieces ':' x
      if !last && gs.any isDotted then none else groups? gs
  match atGap [] cs with
  | (x, none) => count x true == some 8
  | (x, some y) =>
    match count x false, count y true with
    | some m, some n => m + n ≤ 7
    | _, _ => false

/-! ### Hosts -/

/-- Characters that stand for plain ones in a host name. -/
def folded (c : Char) : Char :=
  let n := c.toNat
  if 0xFF01 ≤ n ∧ n ≤ 0xFF5E then Char.ofNat (n - 0xFEE0)
  else if n = 0x3002 ∨ n = 0xFF61 then '.'
  else if n = 0xA0 ∨ n = 0x3000 ∨ (0x2000 ≤ n ∧ n ≤ 0x200A) ∨ n = 0x202F ∨ n = 0x205F then ' '
  else c

def isForbidden (c : Char) : Bool :=
  c.toNat = 0 || c == '\t' || c == '\n' || c == '\r' || c == ' ' || c == '#' || c == '/' || c == ':' ||
    c == '<' || c == '>' || c == '?' || c == '@' || c == '[' || c == '\\' || c == ']' || c == '^' ||
    c == '|'

def isForbiddenInName (c : Char) : Bool :=
  isForbidden c || c.toNat < 0x20 || c.toNat = 0x7f || c == '%' || c == '\uFFFD'

/-- A host that is looked up by name or given by its address. -/
def isHost (host : List Char) : Bool :=
  match host with
  | '[' :: r => r.getLast? == some ']' && isGroupedAddress r.dropLast
  | _ =>
    match Utf8.decode? (percentDecode host) with
    | none => false
    | some s =>
      let name := (s.toList.map folded).filter (· != '\u00AD')
      !name.isEmpty && !name.any isForbiddenInName && (!endsInNumber name || isNumericAddress name)

/-- A host of a scheme without hosts of its own: any text but for a few marks. -/
def isOpaqueHost (host : List Char) : Bool :=
  match host with
  | '[' :: r => r.getLast? == some ']' && isGroupedAddress r.dropLast
  | _ => !host.any isForbidden

def isPort (cs : List Char) : Bool := cs.all Digits.isDigit && Digits.number cs ≤ 65535

/-- The host and the port, which a colon outside brackets divides. -/
def hostAndPort (acc : List Char) (inside : Bool) : List Char → List Char × Option (List Char)
  | [] => (acc.reverse, none)
  | c :: r =>
    if c = ':' ∧ !inside then (acc.reverse, some r)
    else hostAndPort (c :: acc) (if c = '[' then true else if c = ']' then false else inside) r

/-- What stands after the last `@`, and whether there is one. -/
def afterUser (cs : List Char) : List Char × Bool :=
  if cs.contains '@' then ((cs.reverse.takeWhile (· != '@')).reverse, true) else (cs, false)

/-- A user, a host and a port, of which only the host is needed if `named`. -/
def isAuthority (named : Bool) (cs : List Char) : Bool :=
  let (rest, user) := afterUser cs
  let (host, port) := hostAndPort [] false rest
  if host.isEmpty then !named && !user && port.isNone
  else (if named then isHost host else isOpaqueHost host) && port.all isPort

def authorityOf (backslash : Bool) (cs : List Char) : List Char :=
  cs.takeWhile fun c => !(c == '/' || c == '?' || c == '#' || (backslash && c == '\\'))

/-- A file may name a host; a drive letter is none. -/
def isFileHost (cs : List Char) : Bool :=
  match cs with
  | [] => true
  | [a, b] => (isAlpha a && (b == ':' || b == '|')) || isHost cs
  | _ => isHost cs

def isSlash (c : Char) : Bool := c == '/' || c == '\\'

def isValid (s : String) : Bool :=
  match scheme? (cleaned s) with
  | none => false
  | some (scheme, rest) =>
    if scheme ∈ special then isAuthority true (authorityOf true (rest.dropWhile isSlash))
    else if scheme = "file" then
      match rest with
      | a :: b :: r => if isSlash a && isSlash b then isFileHost (authorityOf true r) else true
      | _ => true
    else match rest with
      | '/' :: '/' :: r => isAuthority false (authorityOf false r)
      | _ => true

end Url

/-- The search service's address must be a URL. -/
def checkSearchUrl (s : String) : Except SearchError Unit :=
  if Url.isValid s then .ok () else .error (.request ("invalid search url " ++ s))

end LogExport
