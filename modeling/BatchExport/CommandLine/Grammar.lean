/-! The arguments of a command: options with and without values, and arguments without a name. -/
namespace BatchExport

/-- Why arguments are no command. To ask for help or for the version is none either. -/
inductive UsageProblem where
  | help
  | version
  | nothingGiven
  | missingSubcommand
  | missingArgument
  | missingValue
  | unwantedValue
  | unknownArgument
  | unknownSubcommand
  | repeated
  deriving DecidableEq, Repr

def UsageProblem.name : UsageProblem → String
  | help => "DisplayHelp"
  | version => "DisplayVersion"
  | nothingGiven => "DisplayHelpOnMissingArgumentOrSubcommand"
  | missingSubcommand => "MissingSubcommand"
  | missingArgument => "MissingRequiredArgument"
  | missingValue => "InvalidValue"
  | unwantedValue => "TooManyValues"
  | unknownArgument => "UnknownArgument"
  | unknownSubcommand => "InvalidSubcommand"
  | repeated => "ArgumentConflict"

inductive OptionKind where
  | value
  | flag
  | help
  | version
  deriving DecidableEq, Repr

structure OptionForm where
  name : String
  letter : Option Char := none
  kind : OptionKind
  deriving DecidableEq, Repr

structure Grammar where
  options : List OptionForm
  /-- So many arguments without a name at most. -/
  positions : Nat := 0
  subcommands : List String := []
  deriving DecidableEq, Repr

/-- What has been read so far. -/
structure ReadArguments where
  values : List (String × String) := []
  flags : List String := []
  positional : List String := []
  /-- The last option with a value, which is recorded when the next option begins. -/
  pending : Option (String × Option String) := none
  /-- After two dashes there are no options. -/
  closed : Bool := false
  deriving DecidableEq, Repr

/-- The form of an argument. -/
inductive Word where
  | dashes
  | long (name : List Char) (value : Option (List Char))
  | letters (cs : List Char)
  | plain
  deriving DecidableEq, Repr

/-- The text after the first equals sign is a value. -/
def Word.ofLong (cs : List Char) : Word :=
  match cs.dropWhile (· ≠ '=') with
  | [] => .long cs none
  | _ :: value => .long (cs.takeWhile (· ≠ '=')) (some value)

/-- A single dash is an ordinary argument. -/
def Word.ofText (s : String) : Word :=
  match s.toList with
  | ['-', '-'] => .dashes
  | '-' :: '-' :: cs => .ofLong cs
  | '-' :: c :: cs => .letters (c :: cs)
  | _ => .plain

namespace ReadArguments

def awaitsValue (r : ReadArguments) : Bool :=
  match r.pending with
  | some (_, none) => true
  | _ => false

/-- No option may be given twice. -/
def record (r : ReadArguments) (name value : String) : Except UsageProblem ReadArguments :=
  if (r.values.lookup name).isSome then .error .repeated else .ok { r with values := r.values ++ [(name, value)] }

def resolve (r : ReadArguments) : Except UsageProblem ReadArguments :=
  match r.pending with
  | none => .ok r
  | some (_, none) => .error .missingValue
  | some (name, some value) => { r with pending := none }.record name value

/-- An option, perhaps with a value attached to it. -/
def meet (r : ReadArguments) (o : OptionForm) (attached : Option (List Char)) :
    Except UsageProblem ReadArguments :=
  match o.kind, attached with
  | .value, some value => do (← r.resolve).record o.name (String.ofList value)
  | .value, none => do return { ← r.resolve with pending := some (o.name, none) }
  | _, some _ => .error .unwantedValue
  | .help, none => do
    let _ ← r.resolve
    throw .help
  | .version, none => do
    let _ ← r.resolve
    throw .version
  | .flag, none => do
    let r ← r.resolve
    if r.flags.contains o.name then throw .repeated
    return { r with flags := r.flags ++ [o.name] }

end ReadArguments

namespace Grammar

/-- Letters in a row; the first one that takes a value takes the rest, without an equals sign before it. -/
def meetLetters (g : Grammar) : ReadArguments → List Char → Except UsageProblem ReadArguments
  | r, [] => .ok r
  | r, c :: rest =>
    match g.options.find? (·.letter == some c) with
    | none => .error .unknownArgument
    | some o =>
      if o.kind = .value then
        match rest with
        | [] => r.meet o none
        | '=' :: value => r.meet o (some value)
        | value => r.meet o (some value)
      else do g.meetLetters (← r.meet o none) rest

/-- What an argument is that nobody expects. -/
def unexpected (g : Grammar) (r : ReadArguments) (s : String) : UsageProblem :=
  if g.subcommands.isEmpty || (r.closed && g.subcommands.contains s) then .unknownArgument
  else .unknownSubcommand

def meetPlain (g : Grammar) (r : ReadArguments) (s : String) : Except UsageProblem ReadArguments := do
  if r.positional.length < g.positions then
    let r ← r.resolve
    return { r with positional := r.positional ++ [s] }
  else throw (g.unexpected r s)

/-- One argument. -/
def meet (g : Grammar) (r : ReadArguments) (s : String) : Except UsageProblem ReadArguments :=
  if r.closed then g.meetPlain r s
  else match Word.ofText s, r.pending with
    | .dashes, _ => .ok { r with closed := true }
    | .long name value, _ =>
      match g.options.find? (·.name.toList == name) with
      | none => .error .unknownArgument
      | some o => r.meet o value
    | .letters cs, _ => g.meetLetters r cs
    | .plain, some (name, none) => .ok { r with pending := some (name, some s) }
    | .plain, _ => g.meetPlain r s

/-- Read up to a subcommand. Answers it with what follows. -/
def read (g : Grammar) : ReadArguments → List String →
    Except UsageProblem (ReadArguments × Option (String × List String))
  | r, [] => .ok (r, none)
  | r, s :: rest =>
    if !r.closed && !r.awaitsValue && g.subcommands.contains s then .ok (r, some (s, rest))
    else do g.read (← g.meet r s) rest

/-- Read all. -/
def readAll (g : Grammar) (args : List String) : Except UsageProblem ReadArguments := do
  let (r, _) ← g.read {} args
  r.resolve

end Grammar
end BatchExport
