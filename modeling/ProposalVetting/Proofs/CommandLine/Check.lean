import ProposalVetting.CommandLine.Run
import ProposalVetting.Proofs.Check.Settings
import ProposalVetting.Proofs.Check.Spelling
import ProposalVetting.Proofs.Report.Agreement
import ProposalVetting.Proofs.Report.Document
import ProposalVetting.Proofs.Report.Text

namespace ProposalVetting
open Failure

namespace CommandLine.CheckCommand

variable (c : CheckCommand) (p : Proposal) (s : Snapshot)

/-- The checks that are asked for. -/
def selected : List Check :=
  match c.only with
  | some check => [check]
  | none => Check.all

/-- The kinds of account that fail a check. -/
def refused : List Category :=
  if c.strict then [.selfDestruct, .empty, .delegateCall] else [.selfDestruct]

/-- The address is not exempt, and its account is of a kind that is refused. -/
def Offends (a : Address) : Prop := ¬ p.Exempts a ∧ classify .empty a (s.lookup a) ∈ c.refused

instance (a : Address) : Decidable (c.Offends p s a) := inferInstanceAs (Decidable (_ ∧ _))

/-- An offending address is among those that the check looks at. -/
def Fails (check : Check) : Prop :=
  ∃ text ∈ p.listed check, ∃ a ∈ (Input.address text).toOption, c.Offends p s a

instance (check : Check) : Decidable (c.Fails p s check) :=
  inferInstanceAs
    (Decidable (∃ text ∈ p.listed check, ∃ a ∈ (Input.address text).toOption, c.Offends p s a))

/-- How many of the selected checks fail. -/
def failed : Nat := c.selected.countP fun check => c.Fails p s check

/-- How a run ends that has printed its reports. -/
def ending : Option Failure :=
  if c.failed p s = 0 then none else some (.failedChecks (c.failed p s) c.selected.length)

/-- What is printed of the reports. -/
def print (reports : List Report) : String :=
  if c.json then (Json.array (reports.map Report.document)).writeIndented ++ "\n"
  else String.join (reports.map Report.text)

/-- The reports can be told from the output: it holds their lines one below the other, or a document
that is read back as these reports. -/
structure Shows (output : String) (reports : List Report) : Prop where
  lines : c.json = false →
    output.toList.splitOn '\n' = (reports.flatMap Report.lines).map String.toList ++ [[]]
  document : c.json = true → Json.parse (Json.Decode.list Report.decode) output = .ok reports

variable {c p s} {files : Files} {arguments : List String} {check : Check} {a : Address}

theorem run_of_read (hread : Command.read arguments = .ok (.check c)) :
    CommandLine.run files arguments = .ofExcept (c.run files) := CommandLine.run_of_read hread

/-- An account whose code is one `SELFDESTRUCT`. -/
def flagged : String :=
  "\x7b\"0x1111111111111111111111111111111111111111\":\x7b\"code\":\"0xff\"\x7d\x7d"

/-- Two files, the proposal and the snapshot. -/
def folder : Files := fun path =>
  if path = "proposal" then .ok Checker.spelled
  else if path = "state" then .ok flagged
  else .error .missing

end CommandLine.CheckCommand
end ProposalVetting
