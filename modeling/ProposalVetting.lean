import ProposalVetting.Main
import ProposalVetting.Proofs.Address.Checksum
import ProposalVetting.Proofs.Address.Map
import ProposalVetting.Proofs.Bytecode.DeadCode
import ProposalVetting.Proofs.Bytecode.Execution
import ProposalVetting.Proofs.Bytecode.Extension
import ProposalVetting.Proofs.Check.Abort
import ProposalVetting.Proofs.Check.Asking
import ProposalVetting.Proofs.Check.Assembly
import ProposalVetting.Proofs.Check.Clock
import ProposalVetting.Proofs.Check.Completion
import ProposalVetting.Proofs.Check.Distinct
import ProposalVetting.Proofs.Check.Ending
import ProposalVetting.Proofs.Check.Fetch
import ProposalVetting.Proofs.Check.Permits
import ProposalVetting.Proofs.Check.Policy
import ProposalVetting.Proofs.Check.Schedule
import ProposalVetting.Proofs.Check.Sequence
import ProposalVetting.Proofs.Check.Spelling
import ProposalVetting.Proofs.Check.Validation
import ProposalVetting.Proofs.CommandLine.Check
import ProposalVetting.Proofs.Failure
import ProposalVetting.Proofs.Json.Bounds
import ProposalVetting.Proofs.Json.Codec
import ProposalVetting.Proofs.Json.Document
import ProposalVetting.Proofs.Json.Likeness
import ProposalVetting.Proofs.Json.Numeral
import ProposalVetting.Proofs.Json.Record
import ProposalVetting.Proofs.Json.Spacing
import ProposalVetting.Proofs.Json.Text
import ProposalVetting.Proofs.Json.Writing
import ProposalVetting.Proofs.Proposal.Document
import ProposalVetting.Proofs.Proposal.Membership
import ProposalVetting.Proofs.Proposal.Reading
import ProposalVetting.Proofs.Proposal.Spelling
import ProposalVetting.Proofs.Report.Agreement
import ProposalVetting.Proofs.Report.Document
import ProposalVetting.Proofs.Snapshot.Account
import ProposalVetting.Proofs.Snapshot.Collect
import ProposalVetting.Proofs.Snapshot.Duplicates
import ProposalVetting.Proofs.Snapshot.Loading
import ProposalVetting.Proofs.Snapshot.Parsing
import ProposalVetting.Proofs.Text.Utf8
import ProposalVetting.Proofs.Input.Digits
import ProposalVetting.Proofs.Input.Code
import ProposalVetting.Proofs.Input.Address
import ProposalVetting.Proofs.Input.Agreement
import ProposalVetting.Proofs.Input.Nonce
import ProposalVetting.Proofs.Check.Race
import ProposalVetting.Proofs.TrustSet.History
import ProposalVetting.Proofs.Snapshot.History
import ProposalVetting.Proofs.CommandLine.Arguments
import ProposalVetting.Proofs.CommandLine.Difference
import ProposalVetting.Proofs.CommandLine.Code
import ProposalVetting.Proofs.Bytecode.Walk
import ProposalVetting.Proofs.Report.Text
