/-!
# Command-line options

Options are declared with a long name, mostly a short one of a single letter, and the lines that
explain them. Some take a value.

On the command line options and other arguments may be mixed. Short options can be bunched after one
dash, and in a bunch the first one that takes a value takes all that follows it. The value of an
option stands behind an equals sign, in the rest of the bunch, or in the next argument. Two dashes
end the options.
-/

namespace ShiftReduce.Cli

/-- A declared option. -/
structure OptionSpec where
  short : Option Char
  long : String
  /-- What the value is called in the usage, if the option takes one. -/
  valueName : Option String
  help : List String

/-- Does the option take a value? -/
def OptionSpec.takesValue (o : OptionSpec) : Bool := o.valueName.isSome

/-- What is wrong with a command line. -/
inductive OptionError where
  | unrecognized (name : String)
  | missingValue (name : String)
  | unexpectedValue (name : String)
  | repeated (name : String)
  deriving DecidableEq, Inhabited

/-- The error as it is shown. -/
def OptionError.message : OptionError → String
  | unrecognized name => "Unrecognized option: '" ++ name ++ "'"
  | missingValue name => "Argument to option '" ++ name ++ "' missing"
  | unexpectedValue name => "Option '" ++ name ++ "' does not take an argument"
  | repeated name => "Option '" ++ name ++ "' given more than once"

/-- An option on the command line, by its long name, with its value. -/
structure Given where
  option : String
  value : Option String
  deriving DecidableEq

/-- What the command line says: the options in order and the other arguments in order. -/
structure Arguments where
  given : List Given
  free : List String
  deriving DecidableEq

namespace Arguments

/-- Is an option given? -/
def has (a : Arguments) (option : String) : Bool := a.given.any fun g => g.option == option

/-- The value of an option. -/
def value? (a : Arguments) (option : String) : Option String :=
  (a.given.find? fun g => g.option == option).bind Given.value

end Arguments

/-! ## Reading one argument -/

/-- What one argument says. -/
inductive Argument where
  /-- It is no option. -/
  | free
  /-- The options end here. -/
  | stop
  /-- These options, with their values. -/
  | options (given : List Given)
  /-- These options, and then one whose value is in the next argument. The option is told by its
  long name and by the name used. -/
  | unfinished (given : List Given) (option name : String)

/-- An argument that says an option and then what another one says. -/
def Argument.after (g : Given) : Argument → Argument
  | options given => options (g :: given)
  | unfinished given option name => unfinished (g :: given) option name
  | other => other

/-- Reads the letters after a single dash. -/
def readBunch (specs : List OptionSpec) : List Char → Except OptionError Argument
  | [] => .ok (.options [])
  | c :: rest =>
    match specs.find? fun o => o.short == some c with
    | none => .error (.unrecognized (String.singleton c))
    | some o =>
      if o.takesValue then
        if rest.isEmpty then .ok (.unfinished [] o.long (String.singleton c))
        else .ok (.options [⟨o.long, some (String.ofList rest)⟩])
      else (readBunch specs rest).map (Argument.after ⟨o.long, none⟩)

/-- The declared option of a name that stands after two dashes. A name of one ASCII letter is a
short one. -/
def findNamed (specs : List OptionSpec) : List Char → Option OptionSpec
  | [c] =>
    if c.toNat < 128 then specs.find? fun o => o.short == some c
    else specs.find? fun o => o.long == String.singleton c
  | name => specs.find? fun o => o.long == String.ofList name

/-- Reads the characters after two dashes: a name, and maybe an equals sign with a value. -/
def readLong (specs : List OptionSpec) (s : List Char) : Except OptionError Argument :=
  let chars := s.takeWhile (· != '=')
  let name := String.ofList chars
  let value :=
    match s.dropWhile (· != '=') with
    | [] => none
    | _ :: value => some (String.ofList value)
  match findNamed specs chars with
  | none => .error (.unrecognized name)
  | some o =>
    match o.takesValue, value with
    | true, none => .ok (.unfinished [] o.long name)
    | true, some value => .ok (.options [⟨o.long, some value⟩])
    | false, none => .ok (.options [⟨o.long, none⟩])
    | false, some _ => .error (.unexpectedValue name)

/-- Reads one argument. A single dash is no option. -/
def readArgument (specs : List OptionSpec) (arg : String) : Except OptionError Argument :=
  match arg.toList with
  | ['-', '-'] => .ok .stop
  | '-' :: '-' :: rest => readLong specs rest
  | ['-'] => .ok .free
  | '-' :: rest => readBunch specs rest
  | _ => .ok .free

/-! ## Reading all arguments -/

/-- Reads the arguments one after another. -/
def scan (specs : List OptionSpec) : List String → Except OptionError Arguments
  | [] => .ok ⟨[], []⟩
  | arg :: rest =>
    match readArgument specs arg with
    | .error e => .error e
    | .ok .stop => .ok ⟨[], rest⟩
    | .ok .free => (scan specs rest).map fun a => { a with free := arg :: a.free }
    | .ok (.options given) => (scan specs rest).map fun a => { a with given := given ++ a.given }
    | .ok (.unfinished given option name) =>
      match rest with
      | [] => .error (.missingValue name)
      | value :: rest =>
        (scan specs rest).map fun a =>
          { a with given := given ++ ⟨option, some value⟩ :: a.given }

/-- What the command line says. No option may be given twice; of several that are, the one declared
first is reported. -/
def readArguments (specs : List OptionSpec) (args : List String) : Except OptionError Arguments :=
  match scan specs args with
  | .error e => .error e
  | .ok a =>
    match specs.find? fun o => decide (1 < a.given.countP fun g => g.option == o.long) with
    | some o => .error (.repeated o.long)
    | none => .ok a

/-! ## Usage -/

/-- The column at which the explanations begin. -/
def helpColumn : Nat := 24

/-- Spaces that bring a text to a width. -/
def padding (width : Nat) (s : String) : String :=
  String.ofList (List.replicate (width - s.length) ' ')

/-- The names of an option as they stand in the usage. -/
def OptionSpec.names (o : OptionSpec) : String :=
  "    " ++ (match o.short with | some c => "-" ++ String.singleton c ++ ", " | none => "    ") ++
    "--" ++ o.long ++ (match o.valueName with | some name => " " ++ name | none => "")

/-- The lines of an option in the usage. -/
def OptionSpec.usage (o : OptionSpec) : String :=
  o.names ++ padding helpColumn o.names ++
    ("\n" ++ padding helpColumn "").intercalate o.help ++ "\n"

/-- The usage of a program. -/
def usage (brief : String) (specs : List OptionSpec) : String :=
  brief ++ "\n\nOptions:\n" ++ String.join (specs.map OptionSpec.usage)

end ShiftReduce.Cli
