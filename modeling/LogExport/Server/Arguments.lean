import LogExport.Text.Digits

/-! The arguments of the server program. An option takes its value from the same
argument or from the next, and what is not given there may stand in the
environment. -/

namespace LogExport

inductive OptionName where
  | config
  | port
deriving DecidableEq, Repr

/-- Why the program does not start, or only says how it is used. -/
inductive UsageFault where
  | helpWanted
  | unknownArgument
  | valueMissing
  | valueInvalid
  | givenTwice
  | valueUnwanted
  | configMissing
deriving DecidableEq, Repr

/-- Only a wish for help is granted. -/
def UsageFault.exitCode : UsageFault → Nat
  | helpWanted => 0
  | _ => 2

def UsageFault.showsUsage : UsageFault → Bool
  | valueMissing => false
  | valueInvalid => false
  | _ => true

structure Arguments where
  config : String
  port : Nat := 8080
deriving DecidableEq, Repr

namespace Arguments

/-- A port: a whole number of 16 bits, with or without a sign. -/
def port? (s : String) : Option Nat :=
  let digits (cs : List Char) : Option Nat :=
    if cs.isEmpty || !cs.all Digits.isDigit then none else some (Digits.number cs)
  match s.toList with
  | '+' :: cs => (digits cs).filter (· ≤ 65535)
  | '-' :: cs => (digits cs).filter (· = 0)
  | cs => (digits cs).filter (· ≤ 65535)

structure Reading where
  config : Option String := none
  port : Option Nat := none
  /-- The latest option, with its value once that is known. It counts only when
  the next one begins or all is read. -/
  pending : Option (OptionName × Option String) := none
  ended : Bool := false
deriving DecidableEq, Repr

namespace Reading

/-- Gives an option a value that it does not have. -/
def give (r : Reading) : OptionName → String → Except UsageFault Reading
  | .config, s => if r.config.isSome then .error .givenTwice else .ok { r with config := some s }
  | .port, s =>
    if r.port.isSome then .error .givenTwice
    else match port? s with
      | some n => .ok { r with port := some n }
      | none => .error .valueInvalid

/-- Lets the latest option count. -/
def settle (r : Reading) : Except UsageFault Reading :=
  match r.pending with
  | none => .ok r
  | some (_, none) => .error .valueMissing
  | some (o, some s) => give { r with pending := none } o s

/-- Begins an option, which may bring its value with it. -/
def begin (r : Reading) (o : OptionName) (value : Option String) : Except UsageFault Reading := do
  let r ← r.settle
  match value with
  | some s => r.give o s
  | none => return { r with pending := some (o, none) }

def help (r : Reading) : Except UsageFault Reading := do
  let _ ← r.settle
  throw .helpWanted

def long (r : Reading) (cs : List Char) : Except UsageFault Reading :=
  let name := String.ofList (cs.takeWhile (· ≠ '='))
  let value :=
    match cs.dropWhile (· ≠ '=') with
    | _ :: v => some (String.ofList v)
    | [] => none
  match name with
  | "config" => r.begin .config value
  | "port" => r.begin .port value
  | "help" => if value.isSome then .error .valueUnwanted else r.help
  | _ => .error .unknownArgument

/-- An option by its letter, with what follows it in the same argument. -/
def short (r : Reading) (c : Char) (cs : List Char) : Except UsageFault Reading :=
  let value :=
    match cs with
    | [] => none
    | '=' :: v => some (String.ofList v)
    | v => some (String.ofList v)
  match c with
  | 'c' => r.begin .config value
  | 'p' => r.begin .port value
  | 'h' => r.help
  | _ => .error .unknownArgument

/-- An argument that is no option: it can only be the value of the latest one. -/
def word (r : Reading) (s : String) : Except UsageFault Reading :=
  match r.pending, r.ended with
  | some (o, none), false => .ok { r with pending := some (o, some s) }
  | _, _ => .error .unknownArgument

def take (r : Reading) (s : String) : Except UsageFault Reading :=
  if r.ended then r.word s
  else match s.toList with
    | ['-', '-'] => .ok { r with ended := true }
    | '-' :: '-' :: cs => r.long cs
    | '-' :: c :: cs => r.short c cs
    | _ => r.word s

/-- Takes what is not given from the environment. -/
def complete (r : Reading) (env : String → Option String) : Except UsageFault Arguments := do
  let r ← if r.config.isNone then
      match env "EXPORT_CONFIG_FILE" with
      | some s => r.give .config s
      | none => pure r
    else pure r
  let r ← if r.port.isNone then
      match env "EXPORT_PORT" with
      | some s => r.give .port s
      | none => pure r
    else pure r
  match r.config with
  | some config => return { config, port := r.port.getD 8080 }
  | none => throw .configMissing

end Reading

def parse (env : String → Option String) (args : List String) : Except UsageFault Arguments := do
  let r ← args.foldlM Reading.take {}
  let r ← r.settle
  r.complete env

end Arguments

end LogExport
