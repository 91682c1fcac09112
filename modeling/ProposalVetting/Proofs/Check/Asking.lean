import ProposalVetting.Proofs.Check.Permits
import ProposalVetting.Proofs.Check.Validation
import ProposalVetting.Proofs.Proposal.Membership

namespace ProposalVetting

/-- The addresses of a list that have to be looked up, each once. -/
def Check.needed (trusted : TrustSet) (addresses : List Address) : List Address :=
  (Check.distinct addresses).filter fun a => !trusted.contains a

theorem Check.count_needed (trusted : TrustSet) (addresses : List Address) (a : Address) :
    (Check.needed trusted addresses).count a =
      if a ∈ addresses ∧ trusted.contains a = false then 1 else 0 := by
  have hnodup : (Check.needed trusted addresses).Nodup := (Check.nodup_distinct addresses).filter _
  rw [hnodup.count]
  simp only [Check.needed, List.mem_filter, Check.mem_distinct, Bool.not_eq_true']

namespace Proposal

/-- The texts of the list that a check looks at. -/
def listed (p : Proposal) : Check → List String
  | .targets => p.targets
  | .touched => p.touched

theorem mem_addresses_iff {p : Proposal} {check : Check} {addresses : List Address}
    (h : check.addresses p = .ok addresses) {a : Address} :
    a ∈ addresses ↔ Reads (p.listed check) a := by
  cases check with
  | targets => exact mem_addressesIn h
  | touched => exact mem_addressesIn h

end Proposal

namespace Checker

/-- A check that has come to its end with a report, and the codes that it asked for on its way. -/
inductive Completes (c : Checker) (result : Address → Fetched) (name : String) (trusted : TrustSet)
    (addresses : List Address) : Checked → Prop where
  | intro {r : Round} {report : Report} (hpermits : c.settings.concurrency ≤ Check.maxPermits)
    (hrun : Round.Reachable result (c.start trusted addresses) r) (hover : r.Over result)
    (hreport : Check.assemble name trusted (Check.distinct addresses) r.joined = .ok report) :
    Completes c result name trusted addresses ⟨report, r.pool.asked⟩

/-- One check of a proposal that has come to its end with a report. -/
def RunCompletes (c : Checker) (result : Address → Fetched) (p : Proposal) (check : Check)
    (checked : Checked) : Prop :=
  ∃ trusted addresses, p.scope check = .ok (trusted, addresses) ∧
    c.Completes result check.title trusted addresses checked

/-- All checks of a proposal, one after the other; lookups may end otherwise in each of them. -/
def RunAllCompletes (c : Checker) (results : Check → Address → Fetched) (p : Proposal)
    (checked : List Checked) : Prop :=
  List.Forall₂ (fun check x => c.RunCompletes (results check) p check x) Check.all checked

variable {c : Checker} {result : Address → Fetched} {name : String} {trusted : TrustSet}
  {addresses : List Address} {p : Proposal} {check : Check} {checked : Checked}

/-- A report is given only after every task has landed, so what was asked for is what was needed. -/
theorem Completes.asked_perm (h : c.Completes result name trusted addresses checked) :
    checked.asked.Perm (Check.needed trusted addresses) := by
  obtain ⟨-, hrun, hover, hreport⟩ := h
  rename_i r report
  have hstuck : ∀ s, ¬ Round.Step result r s := by
    rcases hover with ⟨l, hl, hcrashed⟩ | hstuck
    · rw [Check.assemble_of_crashed hl hcrashed] at hreport
      cases hreport
    · exact hstuck
  obtain ⟨hwaiting, hflying⟩ :=
    (inv_of_reachable hrun).pool.done_of_stuck c.concurrency_pos fun q hq => hstuck _ (.advance hq)
  have hbooks := (Round.balanced_start _ _).moves hrun.moves
  have htraced := hbooks.traced
  have haccounted := hbooks.pool.accounted
  simp only [Pool.Traced, hwaiting, hflying, List.map_nil, List.nil_append] at htraced haccounted
  refine htraced.trans ?_
  rw [Check.needed, ← Check.map_address_tasks]
  exact haccounted.map Task.address

theorem Completes.count_asked (h : c.Completes result name trusted addresses checked)
    (a : Address) :
    checked.asked.count a = if a ∈ addresses ∧ trusted.contains a = false then 1 else 0 := by
  rw [h.asked_perm.count_eq, Check.count_needed]

theorem completes_of_checkAddresses (h : c.checkAddresses name trusted addresses = .ok checked) :
    c.Completes c.results name trusted addresses checked := by
  by_cases hpermits : c.settings.concurrency ≤ Check.maxPermits
  · obtain ⟨hrun, hstuck⟩ := c.run_over trusted addresses
    rw [checkAddresses_of_permits hpermits] at h
    obtain ⟨report, hreport, rfl⟩ := Failure.map_eq_ok_iff.1 h
    exact .intro hpermits hrun (.inr hstuck) hreport
  · rw [checkAddresses_of_refused (UInt64.not_le.1 hpermits)] at h
    cases h

theorem runCompletes_of_run (h : c.run check p = .ok checked) :
    c.RunCompletes c.results p check checked := by
  cases hscope : p.scope check with
  | error e =>
    rw [run_of_scope_error hscope] at h
    cases h
  | ok scope =>
    rw [run_of_scope_ok hscope] at h
    exact ⟨_, _, hscope, completes_of_checkAddresses h⟩

theorem runAllCompletes_of_runAll {all : List Checked} (h : c.runAll p = .ok all) :
    c.RunAllCompletes (fun _ => c.results) p all :=
  (Failure.mapM_eq_ok_iff.1 h).imp fun _ _ => runCompletes_of_run

theorem RunCompletes.count_asked (h : c.RunCompletes result p check checked) (a : Address) :
    checked.asked.count a = if Proposal.Reads (p.listed check) a ∧ ¬ p.Exempts a then 1 else 0 := by
  obtain ⟨trusted, addresses, hscope, hcompletes⟩ := h
  obtain ⟨htrusted, haddresses⟩ := Proposal.scope_eq_ok_iff.1 hscope
  rw [hcompletes.count_asked]
  simp only [Proposal.mem_addresses_iff haddresses, ← Bool.not_eq_true,
    Proposal.contains_trustSet_iff htrusted]

/-- A proposal's checks ask for an address once for each of its lists that names it, unless it is
exempt. -/
theorem RunAllCompletes.count_asked {results : Check → Address → Fetched} {all : List Checked}
    (h : c.RunAllCompletes results p all) (a : Address) :
    (all.flatMap Checked.asked).count a =
      (if Proposal.Reads p.targets a ∧ ¬ p.Exempts a then 1 else 0) +
      (if Proposal.Reads p.touched a ∧ ¬ p.Exempts a then 1 else 0) := by
  obtain ⟨targets, _, htargets, hrest, rfl⟩ := List.forall₂_cons_left_iff.1 h
  obtain ⟨touched, _, htouched, hnil, rfl⟩ := List.forall₂_cons_left_iff.1 hrest
  obtain rfl := List.forall₂_nil_left_iff.1 hnil
  simp only [List.flatMap_cons, List.flatMap_nil, List.append_nil, List.count_append]
  rw [htargets.count_asked, htouched.count_asked]
  rfl

theorem exists_completes (hpermits : c.settings.concurrency ≤ Check.maxPermits)
    (hcalm : ∀ a ∈ addresses, trusted.contains a = false → result a ≠ .crashed) {r : Round}
    (hrun : Round.Reachable result (c.start trusted addresses) r) (hover : r.Over result) :
    ∃ report, c.Completes result name trusted addresses ⟨report, r.pool.asked⟩ := by
  obtain ⟨outcome, houtcome⟩ := Check.exists_outcomes trusted hcalm
  exact ⟨_, .intro hpermits hrun hover (assemble_of_over hrun hover houtcome)⟩

theorem exists_runCompletes (hpermits : c.settings.concurrency ≤ Check.maxPermits)
    (hcalm : ∀ a, result a ≠ .crashed) (hvalid : p.validate = .ok ()) (check : Check) :
    ∃ checked, c.RunCompletes result p check checked := by
  obtain ⟨⟨trusted, addresses⟩, hscope⟩ : ∃ scope, p.scope check = .ok scope :=
    Proposal.exists_scope_eq_ok_of_valid hvalid
  obtain ⟨r, hrun, hover⟩ := exists_over c result trusted addresses
  obtain ⟨report, hcompletes⟩ :
      ∃ report, c.Completes result check.title trusted addresses ⟨report, r.pool.asked⟩ :=
    exists_completes hpermits (fun a _ _ => hcalm a) hrun hover
  exact ⟨_, trusted, addresses, hscope, hcompletes⟩

/-- What is asked for when no lookup crashes, however lookups end and whatever the schedule. -/
theorem asks_once_where_needed (c : Checker)
    (hpermits : c.settings.concurrency ≤ Check.maxPermits) :
    (∀ result name trusted addresses checked,
      c.Completes result name trusted addresses checked →
        ∀ a, checked.asked.count a = if a ∈ addresses ∧ trusted.contains a = false then 1 else 0) ∧
    (∀ result name trusted addresses,
      (∀ a ∈ addresses, trusted.contains a = false → result a ≠ .crashed) →
      (∃ r, Round.Reachable result (c.start trusted addresses) r ∧ r.Over result) ∧
      ∀ r, Round.Reachable result (c.start trusted addresses) r → r.Over result →
        ∃ report, c.Completes result name trusted addresses ⟨report, r.pool.asked⟩) ∧
    (∀ name trusted addresses checked, c.checkAddresses name trusted addresses = .ok checked →
      c.Completes c.results name trusted addresses checked) ∧
    (∀ results p all, c.RunAllCompletes results p all → ∀ a,
      (all.flatMap Checked.asked).count a =
        (if Proposal.Reads p.targets a ∧ ¬ p.Exempts a then 1 else 0) +
        (if Proposal.Reads p.touched a ∧ ¬ p.Exempts a then 1 else 0)) ∧
    ∀ p, p.validate = .ok () →
      (∀ results, (∀ check a, results check a ≠ .crashed) →
        ∃ all, c.RunAllCompletes results p all) ∧
      (c.source.Calm → ∃ all, c.runAll p = .ok all ∧
        c.RunAllCompletes (fun _ => c.results) p all) := by
  refine ⟨fun _ _ _ _ _ h => h.count_asked, fun result name trusted addresses hcalm => ?_,
    fun _ _ _ _ => completes_of_checkAddresses, fun _ _ _ h => h.count_asked,
    fun p hvalid => ⟨fun results hcalm => ?_, fun hcalm => ?_⟩⟩
  · exact ⟨exists_over c result trusted addresses,
      fun r hrun hover => exists_completes hpermits hcalm hrun hover⟩
  · obtain ⟨targets, htargets⟩ := exists_runCompletes hpermits (hcalm .targets) hvalid .targets
    obtain ⟨touched, htouched⟩ := exists_runCompletes hpermits (hcalm .touched) hvalid .touched
    exact ⟨_, .cons htargets (.cons htouched .nil)⟩
  · have hruns (check : Check) : ∃ checked, c.run check p = .ok checked :=
      (exists_run_eq_ok_iff hpermits hcalm).2 (Proposal.exists_scope_eq_ok_of_valid hvalid)
    obtain ⟨targets, htargets⟩ := hruns .targets
    obtain ⟨touched, htouched⟩ := hruns .touched
    have hall := runAll_eq_ok htargets htouched
    exact ⟨_, hall, runAllCompletes_of_runAll hall⟩

/-- One account is both a target and touched, in two spellings, and so is the governor, in a
spelling of its own. -/
def overlapping : Proposal where
  daoName := "sample"
  governor := "0xabababababababababababababababababababab"
  timelock := "0x2222222222222222222222222222222222222222"
  targets :=
    ["0x1111111111111111111111111111111111111111", " ABABABABABABABABABABABABABABABABABABABAB"]
  touched :=
    ["0X1111111111111111111111111111111111111111\n", "0xABABABABABABABABABABABABABABABABABABABAB"]

/-- The account is asked for twice, and the governor not at all. -/
theorem overlapping_asks_twice :
    sequential.settings.concurrency ≤ Check.maxPermits ∧
    ∃ all, sequential.runAll overlapping = .ok all ∧
      (all.flatMap Checked.asked).count (.uniform 0x11) = 2 ∧
      (all.flatMap Checked.asked).count (.uniform 0xab) = 0 := by
  have hpermits : sequential.settings.concurrency ≤ Check.maxPermits := by decide
  have hcalm : sequential.source.Calm :=
    fun a => by simp [sequential, Snapshot.source, Lookup.immediate]
  have hvalid : overlapping.validate = .ok () := by decide
  obtain ⟨-, -, -, hcount, hvalidRuns⟩ := asks_once_where_needed sequential hpermits
  obtain ⟨all, hall, hcompletes⟩ := (hvalidRuns overlapping hvalid).2 hcalm
  refine ⟨hpermits, all, hall, ?_, ?_⟩
  · rw [hcount _ _ _ hcompletes]
    decide
  · rw [hcount _ _ _ hcompletes]
    decide

end Checker
end ProposalVetting
