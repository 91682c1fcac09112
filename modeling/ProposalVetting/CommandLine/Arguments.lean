import ProposalVetting.Text.Numeral

namespace ProposalVetting.CommandLine

/-- Why the arguments are not accepted. -/
inductive Refusal where
  | helpOnMissing
  | help
  | invalidSubcommand
  | unknownArgument
  | missingArgument
  | conflict
  | tooManyValues
  | invalidValue
  | valueValidation
deriving DecidableEq, Repr

/-- What an option takes: nothing, or a value that passes a test. -/
inductive OptionKind where
  | flag
  | value (accepts : String → Except Refusal Unit)

structure OptionSpec where
  name : String
  kind : OptionKind
  /-- May be given more than once. -/
  repeats : Bool := false

/-- An option whose value is still to come, or has come but was not looked at. -/
structure Pending where
  option : OptionSpec
  accepts : String → Except Refusal Unit
  value : Option String := none

/-- What has been taken in so far. -/
structure Arguments where
  operand : Option String := none
  /-- Options in the order given; a flag has the empty value. -/
  options : List (String × String) := []
  pending : Option Pending := none
  /-- Behind `--` all arguments are operands. -/
  operandsOnly : Bool := false

namespace Arguments

def has (args : Arguments) (name : String) : Bool := args.options.any fun o => o.1 == name

def values (args : Arguments) (name : String) : List String :=
  (args.options.filter fun o => o.1 == name).map Prod.snd

def value? (args : Arguments) (name : String) : Option String := (args.values name).head?

def record (args : Arguments) (option : OptionSpec) (accepts : String → Except Refusal Unit)
    (value : String) :
    Except Refusal Arguments := do
  if args.has option.name && !option.repeats then throw .conflict
  accepts value
  return { args with options := args.options ++ [(option.name, value)] }

/-- Looks at the value of the last option. -/
def settle (args : Arguments) : Except Refusal Arguments :=
  match args.pending with
  | none => .ok args
  | some { value := none, .. } => .error .invalidValue
  | some { option, accepts, value := some v } =>
    { args with pending := none }.record option accepts v

/-- A name behind two dashes, with the value behind an equals sign if there is one. -/
def long (specs : List OptionSpec) (args : Arguments) (name : String) (attached : Option String) :
    Except Refusal Arguments :=
  match specs.find? fun s => s.name == name with
  | none =>
    if name ≠ "help" then .error .unknownArgument
    else if attached.isSome then .error .tooManyValues
    else do
      let _ ← args.settle
      throw .help
  | some option =>
    match option.kind, attached with
    | .flag, some _ => .error .tooManyValues
    | .flag, none => do (← args.settle).record option (fun _ => .ok ()) ""
    | .value accepts, some v => do (← args.settle).record option accepts v
    | .value accepts, none => do return { ← args.settle with pending := some { option, accepts } }

def operandArgument (args : Arguments) (text : String) : Except Refusal Arguments :=
  match args.operand with
  | some _ => .error .unknownArgument
  | none => do return { ← args.settle with operand := some text }

/-- Splits at the first equals sign. -/
def splitValue (cs : List Char) : String × Option String :=
  (String.ofList (cs.takeWhile (· ≠ '=')),
    match cs.dropWhile (· ≠ '=') with
    | _ :: value => some (String.ofList value)
    | [] => none)

/-- Takes in one more text. The value of an option is looked at when the next thing comes, which may
be refused first. -/
def take (specs : List OptionSpec) (args : Arguments) (text : String) : Except Refusal Arguments :=
  if args.operandsOnly then args.operandArgument text
  else
    match text.toList with
    | ['-', '-'] => .ok { args with operandsOnly := true }
    | '-' :: '-' :: cs => args.long specs (splitValue cs).1 (splitValue cs).2
    | '-' :: 'h' :: _ => do
      let _ ← args.settle
      throw .help
    | '-' :: _ :: _ => .error .unknownArgument
    | _ =>
      match args.pending with
      | some { option, accepts, value := none } =>
        .ok { args with pending := some { option, accepts, value := some text } }
      | _ => args.operandArgument text

def read (specs : List OptionSpec) (texts : List String) : Except Refusal Arguments := do
  (← texts.foldlM (take specs) {}).settle

end Arguments
end ProposalVetting.CommandLine
