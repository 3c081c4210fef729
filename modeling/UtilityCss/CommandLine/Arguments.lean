import UtilityCss.Text.Basic

/-!
Command line arguments. Options and inputs come in any order; after two dashes there are only
inputs. The value of an option is the next argument, unless that looks like an option itself, or is
attached to it. Only `purge` may be given more than once, and `verbose`, which counts.

Arguments are taken in order, so the version is shown if it is asked for before anything is wrong.
-/
namespace UtilityCss

structure Arguments where
  inputs : List Text
  output : Option Text
  distribution : Option Text
  purge : List Text
  settings : Option Text
  minify : Bool
  inline : Bool
  verbosity : Nat
  deriving DecidableEq, Repr

/-- Why there are no arguments to go by. -/
inductive ArgumentStop where
  | version
  | help
  | misuse
  deriving DecidableEq, Repr

/-- The options with a value. -/
inductive ValueOption where
  | output
  | distribution
  | purge
  | settings
  deriving DecidableEq, Repr

/-- The options without one. -/
inductive Flag where
  | minify
  | inline
  | verbose
  | version
  | help
  deriving DecidableEq, Repr

inductive OptionName where
  | value (option : ValueOption)
  | flag (flag : Flag)
  deriving DecidableEq, Repr

namespace OptionName

def longNames : List (String × OptionName) :=
  [("output", .value .output), ("dist", .value .distribution), ("purge", .value .purge),
    ("config", .value .settings), ("minify", .flag .minify), ("inline", .flag .inline),
    ("verbose", .flag .verbose), ("version", .flag .version), ("help", .flag .help)]

def shortNames : List (Char × OptionName) :=
  [('o', .value .output), ('c', .value .settings), ('v', .flag .verbose), ('V', .flag .version),
    ('h', .flag .help)]

end OptionName

namespace Arguments

def none : Arguments :=
  ⟨[], .none, .none, [], .none, false, false, 0⟩

def addInput (arguments : Arguments) (input : Text) : Arguments :=
  { arguments with inputs := arguments.inputs ++ [input] }

/-- Sets what may be set once. -/
def once (present : Option Text) (value : Text) : Except ArgumentStop (Option Text) :=
  if present.isSome then .error .misuse else .ok (some value)

def setValue (arguments : Arguments) (value : Text) : ValueOption → Except ArgumentStop Arguments
  | .output => do return { arguments with output := ← once arguments.output value }
  | .distribution => do
    return { arguments with distribution := ← once arguments.distribution value }
  | .purge => .ok { arguments with purge := arguments.purge ++ [value] }
  | .settings => do return { arguments with settings := ← once arguments.settings value }

def setFlag (arguments : Arguments) : Flag → Except ArgumentStop Arguments
  | .minify => if arguments.minify then .error .misuse else .ok { arguments with minify := true }
  | .inline => if arguments.inline then .error .misuse else .ok { arguments with inline := true }
  | .verbose => .ok { arguments with verbosity := arguments.verbosity + 1 }
  | .version => .error .version
  | .help => .error .help

/-- Whether an argument is an option, or more than one, rather than a value. A dash alone is not. -/
def isOption : Text → Bool
  | '-' :: _ :: _ => true
  | _ => false

/-- Arguments so far, and an option that still wants its value. -/
abbrev Progress := Arguments × Option ValueOption

/-- An option by its full name, which may have a value attached with an equals sign. -/
def takeLong (arguments : Arguments) (name : Text) : Except ArgumentStop Progress :=
  let bare := name.takeWhile (· != '=')
  let attached := (name.dropWhile (· != '=')).tail?
  match OptionName.longNames.lookup (String.ofList bare), attached with
  | .none, _ | some (.flag _), some _ => .error .misuse
  | some (.value option), some value => do return (← arguments.setValue value option, .none)
  | some (.value option), .none => .ok (arguments, some option)
  | some (.flag flag), .none => do return (← arguments.setFlag flag, .none)

/-- Options by their letters. What follows the letter of an option with a value is the value, less
an equals sign. -/
def takeShort (arguments : Arguments) : Text → Except ArgumentStop Progress
  | [] => .ok (arguments, .none)
  | letter :: rest =>
    match OptionName.shortNames.lookup letter with
    | .none => .error .misuse
    | some (.flag flag) => do takeShort (← arguments.setFlag flag) rest
    | some (.value option) =>
      match rest with
      | [] => .ok (arguments, some option)
      | '=' :: value | value => do return (← arguments.setValue value option, .none)

def takeAll : Progress → List Text → Except ArgumentStop Arguments
  | (arguments, .none), [] => .ok arguments
  | (_, some _), [] => .error .misuse
  | (arguments, some option), value :: rest =>
    if isOption value then .error .misuse
    else do takeAll (← arguments.setValue value option, .none) rest
  | (arguments, .none), ['-', '-'] :: rest => .ok (rest.foldl addInput arguments)
  | (arguments, .none), ('-' :: '-' :: name) :: rest => do takeAll (← arguments.takeLong name) rest
  | (arguments, .none), ('-' :: letter :: more) :: rest => do
    takeAll (← arguments.takeShort (letter :: more)) rest
  | (arguments, .none), input :: rest => takeAll (arguments.addInput input, .none) rest

def parse (texts : List Text) : Except ArgumentStop Arguments :=
  takeAll (none, .none) texts

end Arguments

end UtilityCss
