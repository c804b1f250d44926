import CircuitFrames.Numeral.Plain

/-!
# Arguments of the command line

`Invocation.parse?` reads the arguments of a run; what it cannot read is a usage error. Options have
long names, most have a short letter too, and take a value from the same argument or from the next.
Short letters without a value may stand together in one argument.
-/

namespace CircuitFrames

/-- An option that takes a value. -/
inductive OptionName
  | input
  | output
  | config
  | fault
  | width
  | height
deriving DecidableEq, Repr

namespace OptionName

/-- The option of a long name. -/
def ofLong? : String → Option OptionName
  | "input" => some input
  | "output" => some output
  | "config" => some config
  | "fault" => some fault
  | "width" => some width
  | "height" => some height
  | _ => none

/-- The option of a short letter. -/
def ofShort? : Char → Option OptionName
  | 'i' => some input
  | 'o' => some output
  | 'c' => some config
  | 'f' => some fault
  | _ => none

end OptionName

/-- What the rendering command is told. -/
structure RenderOptions where
  /-- The circuit file. -/
  input : String
  /-- The page to write; if not given, it is named after the circuit file. -/
  output : Option String
  /-- The settings file. -/
  config : Option String
  /-- The file with a fault mechanism to highlight. -/
  fault : Option String
  width : Option UInt32
  height : Option UInt32
deriving DecidableEq, Repr

/-- What a run is asked to do. -/
inductive Invocation
  /-- Render a circuit. -/
  | render (options : RenderOptions)
  /-- Show what the program consists of. -/
  | version
  /-- Show the name and number of the program. -/
  | programVersion
  /-- Show how the program is used. -/
  | help
deriving DecidableEq, Repr

namespace Arguments

/-- One argument. -/
inductive Argument
  /-- A word that is no option. -/
  | word (text : String)
  /-- The mark after which no options follow. -/
  | endOfOptions
  /-- Options that only raise the amount of logging. -/
  | verbose
  /-- The version option. -/
  | version
  /-- The help option. -/
  | help
  /-- An option that takes a value, and the value if the argument has it. -/
  | option (name : OptionName) (value : Option String)
  /-- An option that there is not. -/
  | unknown
deriving DecidableEq, Repr

/-- Reads short letters. The letter of an option takes the rest of the argument as its value, without
an equals sign before it. -/
def readShort : List Char → Argument
  | [] => .verbose
  | 'v' :: rest => readShort rest
  | 'V' :: _ => .version
  | 'h' :: _ => .help
  | c :: rest =>
    match OptionName.ofShort? c, rest with
    | none, _ => .unknown
    | some name, [] => .option name none
    | some name, '=' :: value => .option name (some (.ofList value))
    | some name, value => .option name (some (.ofList value))

/-- Reads a long name, and the value behind an equals sign. -/
def readLong (cs : List Char) : Argument :=
  let name := String.ofList (cs.takeWhile (· != '='))
  match cs.dropWhile (· != '='), OptionName.ofLong? name with
  | [], some name => .option name none
  | _ :: value, some name => .option name (some (.ofList value))
  | [], none =>
    match name with
    | "verbose" => .verbose
    | "version" => .version
    | "help" => .help
    | _ => .unknown
  | _ :: _, none => .unknown

/-- Reads one argument. -/
def read (argument : String) : Argument :=
  match argument.toList with
  | ['-', '-'] => .endOfOptions
  | '-' :: '-' :: name => readLong name
  | '-' :: c :: rest => readShort (c :: rest)
  | _ => .word argument

/-- The values of the options so far. -/
abbrev Values := List (OptionName × String)

/-- A size: digits with an optional sign, within thirty-two bits. -/
def size? (text : String) : Option UInt32 :=
  let (negative, digits) :=
    match text.toList with
    | '-' :: ds => (true, ds)
    | '+' :: ds => (false, ds)
    | ds => (false, ds)
  let value := Numeral.digitValue digits
  if digits.isEmpty ∨ !digits.all Char.isDigit then none
  else if negative then if value = 0 then some 0 else none
  else if value < UInt32.size then some (.ofNat value)
  else none

/-- The options of the rendering command; the input has to be given. -/
def options? (values : Values) : Option RenderOptions :=
  (values.lookup .input).map fun input => {
    input := input
    output := values.lookup .output
    config := values.lookup .config
    fault := values.lookup .fault
    width := (values.lookup .width).bind size?
    height := (values.lookup .height).bind size? }

/-- Whether an option takes a value as its own. -/
def accepts (name : OptionName) (value : String) : Bool :=
  match name with
  | .width | .height => (size? value).isSome
  | _ => true

/-- One more value, unless the option has one already or does not take this one. -/
def add? (values : Values) (name : OptionName) (value : String) : Option Values :=
  if (values.lookup name).isSome || !accepts name value then none
  else some ((name, value) :: values)

/-- Reads the arguments of the rendering command. -/
def render? (values : Values) : List String → Option Invocation
  | [] => (options? values).map .render
  | argument :: rest =>
    match read argument with
    | .verbose => render? values rest
    | .help => some .help
    | .option name (some value) => do render? (← add? values name value) rest
    | .option name none =>
      match rest with
      | [] => none
      | value :: rest =>
        match read value with
        | .word value => do render? (← add? values name value) rest
        | _ => none
    | .endOfOptions => if rest.isEmpty then (options? values).map .render else none
    | .word _ | .version | .unknown => none

/-- Reads the arguments of the version command. -/
def version? : List String → Option Invocation
  | [] => some .version
  | argument :: rest =>
    match read argument with
    | .verbose => version? rest
    | .help => some .help
    | .endOfOptions => if rest.isEmpty then some .version else none
    | _ => none

/-- Reads the words behind the help command: the name of a command, if anything. -/
def help? : List String → Option Invocation
  | [] | ["render"] | ["version"] | ["help"] => some .help
  | _ => none

end Arguments

/-- What the arguments ask for; none if they make no sense. -/
def Invocation.parse? : List String → Option Invocation
  | [] => none
  | argument :: rest =>
    match Arguments.read argument with
    | .verbose => Invocation.parse? rest
    | .version => some .programVersion
    | .help => some .help
    | .word "render" => Arguments.render? [] rest
    | .word "version" => Arguments.version? rest
    | .word "help" => Arguments.help? rest
    | _ => none

end CircuitFrames
