import ScanAudit.Config

/-!
# Options of the command line

An option is a long name after two hyphens, or a letter after one; letters of switches can stand
together, with an option that takes a file last. A file follows its option as the next argument,
after an equals sign, or directly after the letter.

* `FileOption`, `Switch` — the options
* `Options` — what a command line has set so far
* `Request`, `Request.ofArguments` — what a command line asks for
-/

namespace ScanAudit.CommandLine

inductive FileOption
  | log | database | schema
  deriving DecidableEq

inductive Switch
  | keepGoing | verbose | version | help
  deriving DecidableEq

/-- An option that the program knows. -/
inductive Known
  | file (option : FileOption)
  | switch (option : Switch)

def longNames : List (String × Known) :=
  [("log", .file .log), ("database", .file .database), ("schema", .file .schema),
   ("keep-going", .switch .keepGoing), ("verbose", .switch .verbose),
   ("version", .switch .version), ("help", .switch .help)]

def letters : List (Char × Known) :=
  [('l', .file .log), ('d', .file .database), ('s', .file .schema),
   ('k', .switch .keepGoing), ('v', .switch .verbose), ('V', .switch .version),
   ('h', .switch .help)]

structure Options where
  log : Option String := none
  database : Option String := none
  schema : Option String := none
  keepGoing : Bool := false
  /-- How often more detail was asked for. -/
  verbosity : Nat := 0

inductive Request
  | audit (config : Config) (verbosity : Nat)
  | version
  | help
  /-- The command line is not one of the program. -/
  | misuse

/-- What a command line asks for once all its arguments are read. A schema script and a database
exclude each other. -/
def Options.request (options : Options) : Request :=
  if options.schema.isSome && options.database.isSome then .misuse
  else
    let defaults : Config := {}
    .audit
      { logPath := (options.log.map .ofString).getD defaults.logPath
        databasePath := (options.database.map .ofString).getD defaults.databasePath
        schemaPath := options.schema.map .ofString
        policy := if options.keepGoing then .skip else .stop }
      options.verbosity

/-- Where reading stands after an argument. -/
inductive Reading
  /-- The next argument is a file for the option, or an option if none waits. -/
  | goesOn (options : Options) (waiting : Option FileOption)
  | settled (request : Request)

/-- An option with its file, which has a name and is given only once. -/
def Options.setFile (options : Options) (option : FileOption) (path : List Char) : Reading :=
  let path := String.ofList path
  if path = "" then .settled .misuse
  else
    match option with
    | .log =>
      if options.log.isSome then .settled .misuse
      else .goesOn { options with log := some path } none
    | .database =>
      if options.database.isSome then .settled .misuse
      else .goesOn { options with database := some path } none
    | .schema =>
      if options.schema.isSome then .settled .misuse
      else .goesOn { options with schema := some path } none

def Options.flip (options : Options) : Switch → Reading
  | .keepGoing =>
    if options.keepGoing then .settled .misuse
    else .goesOn { options with keepGoing := true } none
  | .verbose => .goesOn { options with verbosity := options.verbosity + 1 } none
  | .version => .settled .version
  | .help => .settled .help

/-- An argument after its two hyphens: a name, and what follows the first equals sign. -/
def Options.readLong (options : Options) (cs : List Char) : Reading :=
  let name := cs.takeWhile (· != '=')
  let attached := cs.dropWhile (· != '=')
  match longNames.lookup (String.ofList name), attached with
  | some (.file option), [] => .goesOn options (some option)
  | some (.file option), _ :: path => options.setFile option path
  | some (.switch option), [] => options.flip option
  | _, _ => .settled .misuse

/-- The letters of an argument after its hyphen. -/
def readLetters (options : Options) : List Char → Reading
  | [] => .goesOn options none
  | c :: cs =>
    match letters.lookup c with
    | none => .settled .misuse
    | some (.file option) =>
      match cs with
      | [] => .goesOn options (some option)
      | '=' :: path => options.setFile option path
      | path => options.setFile option path
    | some (.switch option) =>
      match options.flip option with
      | .goesOn options _ => readLetters options cs
      | .settled request => .settled request

/-- One hyphen alone is no option. -/
def looksLikeOption : List Char → Bool
  | '-' :: _ :: _ => true
  | _ => false

def Options.readArgument (options : Options) (waiting : Option FileOption) (cs : List Char) :
    Reading :=
  match waiting with
  | some option =>
    if looksLikeOption cs then .settled .misuse else options.setFile option cs
  | none =>
    match cs with
    | '-' :: '-' :: long => options.readLong long
    | '-' :: c :: cs => readLetters options (c :: cs)
    | _ => .settled .misuse

/-- Two hyphens alone end the options, and nothing else may follow them. -/
def readArguments (options : Options) (waiting : Option FileOption) : List String → Request
  | [] => if waiting.isSome then .misuse else options.request
  | argument :: arguments =>
    if argument = "--" then
      if waiting.isNone && arguments.isEmpty then options.request else .misuse
    else
      match options.readArgument waiting argument.toList with
      | .settled request => request
      | .goesOn options waiting => readArguments options waiting arguments

def Request.ofArguments (arguments : List String) : Request :=
  readArguments {} none arguments

end ScanAudit.CommandLine
