import ProposalVetting.Check.Run
import ProposalVetting.CommandLine.Arguments

namespace ProposalVetting.CommandLine
open Text

structure ScanCommand where
  code : String
  json : Bool
deriving DecidableEq, Repr

structure ClassifyCommand where
  address : String
  code : Option String
  noCode : Bool
  nonce : String
  trusted : List String
deriving DecidableEq, Repr

structure CheckCommand where
  proposal : String
  state : String
  only : Option Check
  json : Bool
  strict : Bool
  timeout : Option UInt64
  concurrency : Option UInt64
deriving DecidableEq, Repr

inductive Command where
  | scan (c : ScanCommand)
  | classify (c : ClassifyCommand)
  | check (c : CheckCommand)
deriving DecidableEq, Repr

def flag (name : String) : OptionSpec := { name, kind := .flag }

def anyText (name : String) : OptionSpec := { name, kind := .value fun _ => .ok () }

def number? (text : String) : Option UInt64 := Numeral.word? 10 text.toList

def numeric (name : String) : OptionSpec where
  name
  kind := .value fun text => if (number? text).isSome then .ok () else .error .valueValidation

def checkNames : List (String × Check) := [("targets", .targets), ("touched", .touched)]

def oneOf (name : String) (names : List String) : OptionSpec where
  name
  kind := .value fun text => if names.contains text then .ok () else .error .invalidValue

def operand (args : Arguments) : Except Refusal String :=
  match args.operand with
  | some text => .ok text
  | none => .error .missingArgument

namespace ScanCommand

def options : List OptionSpec := [flag "json"]

def ofArguments (args : Arguments) : Except Refusal ScanCommand := do
  return { code := ← operand args, json := args.has "json" }

end ScanCommand

namespace ClassifyCommand

def options : List OptionSpec :=
  [anyText "code", flag "no-code", anyText "nonce", { anyText "trusted" with repeats := true }]

def ofArguments (args : Arguments) : Except Refusal ClassifyCommand := do
  if args.has "code" && args.has "no-code" then throw .conflict
  return {
    address := ← operand args
    code := args.value? "code"
    noCode := args.has "no-code"
    nonce := (args.value? "nonce").getD "0"
    trusted := (args.values "trusted").flatMap fun list => list.splitOn "," }

end ClassifyCommand

namespace CheckCommand

def options : List OptionSpec :=
  [anyText "state", oneOf "only" (checkNames.map Prod.fst), flag "json", flag "strict",
   numeric "timeout", numeric "concurrency"]

def ofArguments (args : Arguments) : Except Refusal CheckCommand := do
  let proposal ← operand args
  match args.value? "state" with
  | none => throw .missingArgument
  | some state =>
    return {
      proposal, state
      only := (args.value? "only").bind fun name => checkNames.lookup name
      json := args.has "json"
      strict := args.has "strict"
      timeout := (args.value? "timeout").bind number?
      concurrency := (args.value? "concurrency").bind number? }

end CheckCommand

namespace Command

/-- The commands by name. -/
def readers : List (String × (List String → Except Refusal Command)) :=
  [("scan", fun texts => do
      return .scan (← ScanCommand.ofArguments (← Arguments.read ScanCommand.options texts))),
   ("classify", fun texts => do
      return .classify
        (← ClassifyCommand.ofArguments (← Arguments.read ClassifyCommand.options texts))),
   ("check", fun texts => do
      return .check (← CheckCommand.ofArguments (← Arguments.read CheckCommand.options texts)))]

def names : List String := readers.map Prod.fst ++ ["help"]

/-- `help`, with the name of a command or none. -/
def help : List String → Refusal
  | [] => .help
  | [name] => if names.contains name then .help else .invalidSubcommand
  | _ => .invalidSubcommand

/-- What `--` leaves: no command can follow it. -/
def afterDashes : List String → Refusal
  | [] => .helpOnMissing
  | text :: _ => if names.contains text then .unknownArgument else .invalidSubcommand

def read : List String → Except Refusal Command
  | [] => .error .helpOnMissing
  | text :: rest =>
    match readers.lookup text with
    | some reader => reader rest
    | none =>
      if text = "help" then .error (help rest)
      else
        match text.toList with
        | ['-', '-'] => .error (afterDashes rest)
        | '-' :: '-' :: cs =>
          .error <|
            match Arguments.splitValue cs with
            | ("help", none) => .help
            | ("help", some _) => .tooManyValues
            | _ => .unknownArgument
        | '-' :: 'h' :: _ => .error .help
        | '-' :: _ :: _ => .error .unknownArgument
        | _ => .error .invalidSubcommand

end Command
end ProposalVetting.CommandLine
