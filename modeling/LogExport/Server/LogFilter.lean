import LogExport.Text.Pieces

/-! Which messages of the program are logged. A filter names levels, each for
itself or for the sources whose names start in some way; the longest such name
decides. -/

namespace LogExport

inductive LogLevel where
  | off
  | error
  | warn
  | info
  | debug
  | trace
deriving DecidableEq, Repr

namespace LogLevel

def rank : LogLevel → Nat
  | off => 0
  | error => 1
  | warn => 2
  | info => 3
  | debug => 4
  | trace => 5

/-- A level by its name or its rank. -/
def ofText? (s : String) : Option LogLevel :=
  match s.map Char.toLower with
  | "off" => some off
  | "error" => some error
  | "warn" => some warn
  | "info" => some info
  | "debug" => some debug
  | "trace" => some trace
  | "0" => some off
  | "1" => some error
  | "2" => some warn
  | "3" => some info
  | "4" => some debug
  | "5" => some trace
  | _ => none

end LogLevel

/-- A level for the sources whose names start with a text. -/
structure LogRule where
  source : String
  level : LogLevel
deriving DecidableEq, Repr

abbrev LogFilter := List LogRule

namespace LogRule

def isSourceChar (c : Char) : Bool := c.isAlphanum || c = '_' || c = ':' || c = '-'

/-- A level, a source, or both with a sign between them. A source alone is logged
in full. -/
def ofText? (s : String) : Option LogRule :=
  match LogLevel.ofText? s with
  | some l => some ⟨"", l⟩
  | none =>
    let source := String.ofList (s.toList.takeWhile isSourceChar)
    let rest := s.toList.dropWhile isSourceChar
    if source.isEmpty then none
    else match rest with
      | [] => some ⟨source, .trace⟩
      | ['='] => some ⟨source, .trace⟩
      | '=' :: l => (LogLevel.ofText? (.ofList l)).map (⟨source, ·⟩)
      | _ => none

end LogRule

namespace LogFilter

/-- The rules between commas. An empty text lets only errors through. -/
def ofText? (s : String) : Option LogFilter :=
  if s.isEmpty then some [⟨"", .error⟩]
  else (pieces ',' s.toList).mapM fun p => LogRule.ofText? (.ofList p)

/-- The filter that a text asks for, or the usual one if it asks for none. -/
def ofSetting (s : Option String) : LogFilter := (s.bind ofText?).getD [⟨"", .info⟩]

/-- The rule for a source: the longest that fits, and of those the last. -/
def ruleFor (f : LogFilter) (source : String) : Option LogRule :=
  f.foldl (fun best r =>
    if source.startsWith r.source && (best.all fun b => b.source.length ≤ r.source.length) then some r
    else best) none

def lets (f : LogFilter) (source : String) (level : LogLevel) : Bool :=
  (f.ruleFor source).any fun r => level.rank ≤ r.level.rank

end LogFilter

end LogExport
