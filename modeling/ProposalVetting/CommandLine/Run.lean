import ProposalVetting.Bytecode.Document
import ProposalVetting.CommandLine.Command
import ProposalVetting.Report.Document

namespace ProposalVetting.CommandLine
open Text

inductive Failure where
  | refused (r : Refusal)
  | input (e : InputError)
  | facts (e : FactsError)
  | config (e : ConfigError)
  | provider (e : ProviderError)
  | check (e : CheckError)
  | failedChecks (failed total : Nat)
deriving DecidableEq

def Failure.message : Failure → String
  | refused _ => "invalid arguments"
  | input e => e.message
  | facts e => e.message
  | config e => e.message
  | provider e => e.message
  | check e => e.message
  | failedChecks failed total => toString failed ++ " of " ++ toString total ++ " checks failed"

/-- Help that was asked for is no failure of the program. -/
def Failure.status : Failure → UInt32
  | refused .help => 0
  | refused _ => 2
  | check (.permits _) => 101
  | _ => 1

structure Outcome where
  output : String := ""
  failure : Option Failure := none
deriving DecidableEq

def Outcome.status (o : Outcome) : UInt32 :=
  match o.failure with
  | none => 0
  | some f => f.status

def Outcome.ofExcept : Except Failure Outcome → Outcome
  | .ok o => o
  | .error f => { failure := some f }

/-- Code given inline, or as `@` and the path of a file. -/
def codeArgument (files : Files) (text : String) : Except InputError (List UInt8) :=
  match text.toList with
  | '@' :: path => Input.codeFile files (String.ofList path)
  | _ => Input.code text

/-- At least four digits, behind a mark. -/
def position (n : Nat) : String :=
  let digits := Hex.ofNat n
  "0x" ++ String.ofList (List.replicate (4 - digits.length) '0' ++ digits)

def scanText (code : List UInt8) : String :=
  let report := Bytecode.scan code
  let line (s : String) := s ++ "\n"
  line ("verdict:      " ++ report.verdict.tag) ++
  line ("code length:  " ++ toString report.codeLength ++ " bytes") ++
  line ("code hash:    0x" ++ String.ofList (Hex.encode (Hash.Keccak.hash code))) ++
  line ("instructions: " ++ toString report.visited) ++
  String.join (report.selfDestruct.toList.map fun pc => line ("SELFDESTRUCT at " ++ position pc)) ++
  String.join (report.delegateCalls.map fun pc => line ("DELEGATECALL at " ++ position pc)) ++
  if report.truncated then line "note: final PUSH runs past the end of the code" else ""

def ScanCommand.run (c : ScanCommand) (files : Files) : Except Failure Outcome := do
  let code ← (codeArgument files c.code).mapError .input
  return {
    output :=
      if c.json then (Bytecode.scan code).document.writeIndented ++ "\n" else scanText code }

namespace ClassifyCommand

def facts (c : ClassifyCommand) (files : Files) : Except Failure Facts :=
  if c.noCode then (Facts.ofText none c.nonce).mapError .facts
  else
    let text := c.code.getD "0x"
    if text.toList.head? = some '@' then do
      let code ← (codeArgument files text).mapError .input
      let nonce ← (Input.nonce c.nonce).mapError .input
      return ⟨some code, nonce⟩
    else (Facts.ofText (some text) c.nonce).mapError .facts

def run (c : ClassifyCommand) (files : Files) : Except Failure Outcome := do
  let address ← (Input.address c.address).mapError .input
  let trusted ← (c.trusted.mapM Input.address).mapError .input
  let category := classify (.ofList trusted) address (← c.facts files)
  return { output :=
    address.checksum ++ ": " ++ category.tag ++ " [" ++ category.severity.tag ++ "] " ++
      category.description ++ "\n" }

end ClassifyCommand

namespace CheckCommand

def settings (c : CheckCommand) : Settings :=
  let base := if c.strict then Settings.strict else .default
  { base with
    timeout := (c.timeout.map Duration.ofSeconds).getD base.timeout
    concurrency := c.concurrency.getD base.concurrency }

def reports (c : CheckCommand) (checker : Checker) (p : Proposal) :
    Except CheckError (List Report) := do
  let checked ← match c.only with
    | some check => (checker.run check p).map fun r => [r]
    | none => checker.runAll p
  return checked.map Checked.report

def run (c : CheckCommand) (files : Files) : Except Failure Outcome := do
  let proposal ← (Proposal.load files c.proposal).mapError .config
  let snapshot ← (Snapshot.load files c.state).mapError .provider
  let checker ← (Checker.ofSettings c.settings snapshot.source).mapError .check
  let reports ← (c.reports checker proposal).mapError .check
  let failed := Report.countFailed c.settings.failOnWarning reports
  return {
    output :=
      if c.json then (Json.array (reports.map Report.document)).writeIndented ++ "\n"
      else String.join (reports.map Report.text)
    failure := if failed = 0 then none else some (.failedChecks failed reports.length) }

end CheckCommand

namespace Command

def run (files : Files) : Command → Except Failure Outcome
  | scan c => c.run files
  | classify c => c.run files
  | check c => c.run files

/-- The files that a run may read. -/
def paths : Command → List String
  | scan c => ofCode c.code
  | classify c => ofCode (c.code.getD "")
  | check c => [c.proposal, c.state]
where
  ofCode (text : String) : List String :=
    match text.toList with
    | '@' :: path => [String.ofList path]
    | _ => []

end Command

/-- A run from the arguments on. -/
def run (files : Files) (arguments : List String) : Outcome :=
  .ofExcept do
    let command ← (Command.read arguments).mapError .refused
    command.run files

theorem run_of_read {files : Files} {arguments : List String} {command : Command}
    (h : Command.read arguments = .ok command) :
    run files arguments = .ofExcept (command.run files) := by
  rw [run, h]
  rfl

end ProposalVetting.CommandLine
