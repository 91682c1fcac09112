import ProposalVetting.Proofs.Bytecode.Liveness
import ProposalVetting.Proofs.Check.Completion
import ProposalVetting.Proofs.Failure

namespace ProposalVetting
open Bytecode

namespace Facts

/-- There is code with a live `SELFDESTRUCT` in it. -/
def Destructible (f : Facts) : Prop :=
  ∃ code, f.code = some code ∧ code ≠ [] ∧ ∃ pc, LiveAt code .selfDestruct pc

/-- An account in use without code, or code in which neither `SELFDESTRUCT` nor `DELEGATECALL` is
live. -/
def Harmless (f : Facts) : Prop :=
  f.code = some [] ∧ f.nonce > 0 ∨
    ∃ code, f.code = some code ∧ code ≠ [] ∧
      (∀ pc, ¬ LiveAt code .selfDestruct pc) ∧ ∀ pc, ¬ LiveAt code .delegateCall pc

end Facts

namespace Category

theorem severity_ofVerdict_eq_error_iff {v : Verdict} :
    (ofVerdict v).severity = .error ↔ v = .selfDestruct := by
  cases v <;> decide

theorem severity_ofVerdict_eq_info_iff {v : Verdict} :
    (ofVerdict v).severity = .info ↔ v = .safe := by
  cases v <;> decide

end Category

variable {trusted : TrustSet} {a : Address} {f : Facts}

theorem severity_classify_eq_error_iff (ha : trusted.contains a = false) :
    (classify trusted a f).severity = .error ↔ f.Destructible := by
  unfold classify Facts.Destructible
  rw [if_neg (by simp [ha])]
  split
  · next hcode => simp [hcode, Category.severity]
  · next hcode =>
    split <;> simp [hcode, Category.severity]
  · next code hempty hcode =>
    rw [Category.severity_ofVerdict_eq_error_iff, verdict_eq_selfDestruct_iff, hcode]
    simp [show code ≠ [] from hempty]

theorem severity_classify_eq_info_iff (ha : trusted.contains a = false) :
    (classify trusted a f).severity = .info ↔ f.Harmless := by
  unfold classify Facts.Harmless
  rw [if_neg (by simp [ha])]
  split
  · next hcode => simp [hcode, Category.severity]
  · next hcode =>
    split
    · next hnonce => simp [hcode, hnonce, Category.severity]
    · next hnonce => simp [hcode, hnonce, Category.severity]
  · next code hempty hcode =>
    rw [Category.severity_ofVerdict_eq_info_iff, verdict_eq_safe_iff, hcode]
    simp [show code ≠ [] from hempty]

/-- An untrusted address without facts counts as an error; with facts its category decides. -/
theorem severity_settled_iff {result : Address → Fetched} {o : Outcome} {P : Severity → Prop}
    (hP : ¬ P .error) (ha : trusted.contains a = false)
    (ho : Check.settled? trusted result a = some o) :
    P o.severity ↔ ∃ f, result a = .facts f ∧ P (classify trusted a f).severity := by
  rw [Check.settled?_of_untrusted ha] at ho
  cases h : result a with
  | facts f =>
    rw [h] at ho
    cases ho
    simp [Outcome.severity]
  | failed e =>
    rw [h] at ho
    cases ho
    simp [Outcome.severity, hP]
  | crashed =>
    rw [h] at ho
    cases ho

theorem severity_settled_of_trusted {result : Address → Fetched} {o : Outcome}
    (ha : trusted.contains a = true) (ho : Check.settled? trusted result a = some o) :
    o.severity = .info := by
  rw [Check.settled?_of_trusted ha] at ho
  cases ho
  rfl

namespace Checker

variable {c : Checker}

/-- The address does not fail a check that lets warnings pass. -/
def Tolerates (c : Checker) (trusted : TrustSet) (a : Address) : Prop :=
  trusted.contains a = true ∨ ∃ f, c.source.Tells c.settings.timeout a f ∧ ¬ f.Destructible

/-- The address does not fail a check that stops at warnings. -/
def Clears (c : Checker) (trusted : TrustSet) (a : Address) : Prop :=
  trusted.contains a = true ∨ ∃ f, c.source.Tells c.settings.timeout a f ∧ f.Harmless

section Settled

variable {name : String} {addresses : List Address} {outcome : Address → Outcome}

theorem severity_ne_error_iff {o : Outcome} (ho : Check.settled? trusted c.results a = some o) :
    o.severity ≠ .error ↔ c.Tolerates trusted a := by
  cases ha : trusted.contains a with
  | true => simp [Tolerates, ha, severity_settled_of_trusted ha ho]
  | false =>
    rw [severity_settled_iff (P := (· ≠ .error)) (by simp) ha ho]
    simp only [Tolerates, ha, Bool.false_eq_true, false_or, results, Fetch.of_result_eq_facts_iff,
      ne_eq, severity_classify_eq_error_iff ha]

theorem severity_eq_info_iff {o : Outcome} (ho : Check.settled? trusted c.results a = some o) :
    o.severity = .info ↔ c.Clears trusted a := by
  cases ha : trusted.contains a with
  | true => simp [Clears, ha, severity_settled_of_trusted ha ho]
  | false =>
    rw [severity_settled_iff (P := (· = .info)) (by simp) ha ho]
    simp only [Clears, ha, Bool.false_eq_true, false_or, results, Fetch.of_result_eq_facts_iff,
      severity_classify_eq_info_iff ha]

theorem results_ne_crashed (hcalm : c.source.Calm) (a : Address) : c.results a ≠ .crashed :=
  Fetch.of_result_ne_crashed hcalm 0

/-- A source that never crashes settles every address. -/
theorem exists_settled_of_calm (hcalm : c.source.Calm) (trusted : TrustSet) :
    ∃ outcome : Address → Outcome, ∀ a, Check.settled? trusted c.results a = some (outcome a) := by
  have hsettled (a : Address) : ∃ o, Check.settled? trusted c.results a = some o :=
    Check.exists_settled fun _ => results_ne_crashed hcalm a
  choose outcome houtcome using hsettled
  exact ⟨outcome, houtcome⟩

/-- The report of a check in which these are the outcomes. -/
def settledReport (name : String) (outcome : Address → Outcome) (addresses : List Address) :
    Report :=
  .build name ((Check.distinct addresses).map fun a => .of a (outcome a))

theorem returns_iff_of_settled (hpermits : c.settings.concurrency ≤ Check.maxPermits)
    (houtcome : ∀ a, Check.settled? trusted c.results a = some (outcome a)) (name : String)
    (addresses : List Address) (x : Except CheckError Report) :
    c.Returns c.results name trusted addresses x ↔ x = .ok (settledReport name outcome addresses) :=
  returns_iff_of_over_eq hpermits
    (fun hrun hover => assemble_of_over hrun hover fun a _ => houtcome a) x

theorem exists_report_of_calm (hpermits : c.settings.concurrency ≤ Check.maxPermits)
    (hcalm : c.source.Calm) (name : String) (trusted : TrustSet) (addresses : List Address) :
    ∃ report, ∀ x, c.Returns c.results name trusted addresses x ↔ x = .ok report := by
  obtain ⟨outcome, houtcome⟩ := exists_settled_of_calm hcalm trusted
  exact ⟨_, returns_iff_of_settled hpermits houtcome name addresses⟩

theorem checkAddresses_eq_ok (hpermits : c.settings.concurrency ≤ Check.maxPermits)
    (hcalm : c.source.Calm) (name : String) (trusted : TrustSet) (addresses : List Address) :
    ∃ checked, c.checkAddresses name trusted addresses = .ok checked := by
  obtain ⟨report, hreport⟩ := exists_report_of_calm hpermits hcalm name trusted addresses
  have hreturns := returns_checkAddresses c name trusted addresses
  rw [hreport, Failure.map_eq_ok_iff] at hreturns
  obtain ⟨checked, h, -⟩ := hreturns
  exact ⟨checked, h⟩

theorem passed_false_iff (houtcome : ∀ a, Check.settled? trusted c.results a = some (outcome a)) :
    (settledReport name outcome addresses).passed false = true ↔
      ∀ a ∈ addresses, c.Tolerates trusted a := by
  rw [settledReport, Report.passed_build_false_iff]
  simp only [List.forall_mem_map, Check.mem_distinct]
  exact forall₂_congr fun a _ => severity_ne_error_iff (houtcome a)

theorem passed_true_iff (houtcome : ∀ a, Check.settled? trusted c.results a = some (outcome a)) :
    (settledReport name outcome addresses).passed true = true ↔
      ∀ a ∈ addresses, c.Clears trusted a := by
  rw [settledReport, Report.passed_build_true_iff]
  simp only [List.forall_mem_map, Check.mem_distinct]
  exact forall₂_congr fun a _ => severity_eq_info_iff (houtcome a)

end Settled

/-- The answer of a check, from its addresses alone. A lookup that fails or runs out of time fails
the check under both policies; code that could not be retrieved fails it only where warnings do. -/
theorem passes_iff_each_address_does (c : Checker)
    (hpermits : c.settings.concurrency ≤ Check.maxPermits) (hcalm : c.source.Calm) (name : String)
    (trusted : TrustSet) (addresses : List Address) :
    ∃ report, (c.checkAddresses name trusted addresses).map Checked.report = .ok report ∧
      (∀ x, c.Returns c.results name trusted addresses x ↔ x = .ok report) ∧
      (report.passed false = true ↔ ∀ a ∈ addresses, c.Tolerates trusted a) ∧
      (report.passed true = true ↔ ∀ a ∈ addresses, c.Clears trusted a) ∧
      (∀ a ∈ addresses, trusted.contains a = false →
        (∀ f, ¬ c.source.Tells c.settings.timeout a f) →
        report.passed false = false ∧ report.passed true = false) ∧
      (∀ a ∈ addresses, trusted.contains a = false → ∀ f, c.source.Tells c.settings.timeout a f →
        f.code = none →
        report.passed true = false ∧
          (report.passed false = true ↔ ∀ b ∈ addresses, b ≠ a → c.Tolerates trusted b)) := by
  obtain ⟨outcome, houtcome⟩ := exists_settled_of_calm hcalm trusted
  have hreturns := returns_iff_of_settled hpermits houtcome name addresses
  have htolerates : (settledReport name outcome addresses).passed false = true ↔
      ∀ a ∈ addresses, c.Tolerates trusted a := passed_false_iff houtcome
  have hclears : (settledReport name outcome addresses).passed true = true ↔
      ∀ a ∈ addresses, c.Clears trusted a := passed_true_iff houtcome
  refine ⟨settledReport name outcome addresses,
    (hreturns _).1 (returns_checkAddresses c name trusted addresses), hreturns,
    htolerates, hclears, ?_, ?_⟩
  · intro a ha htrusted hunanswered
    -- the facts an account would need are told by no lookup
    have hsilent (P : Facts → Prop) :
        ¬ (trusted.contains a = true ∨ ∃ f, c.source.Tells c.settings.timeout a f ∧ P f) := by
      rintro (htrust | ⟨f, hf, -⟩)
      · simp [htrusted] at htrust
      · exact hunanswered f hf
    simp only [← Bool.not_eq_true, htolerates, hclears]
    exact ⟨fun h => hsilent _ (h a ha), fun h => hsilent _ (h a ha)⟩
  · intro a ha htrusted f hf hcode
    constructor
    · rw [← Bool.not_eq_true, hclears]
      intro h
      rcases h a ha with htrust | ⟨g, hg, hharmless⟩
      · simp [htrusted] at htrust
      · -- the lookups tell one thing only, and without code that is not harmless
        have hgf : g = f := hg.unique hf
        simp [hgf, Facts.Harmless, hcode] at hharmless
    · rw [htolerates]
      constructor
      · intro h b hb _
        exact h b hb
      · intro h b hb
        by_cases hba : b = a
        · rw [hba]
          exact .inr ⟨f, hf, by simp [Facts.Destructible, hcode]⟩
        · exact h b hb hba

/-- One account never answers. All others hold a contract whose only `SELFDESTRUCT` byte is an
operand. -/
def halfSilent : Checker where
  settings := .strict
  source :=
    { code := fun a =>
        if a = .uniform 2 then ⟨none, .value none⟩
        else ⟨some 5, .value (some [0x60, 0xff, 0x00])⟩
      nonce := fun _ => .immediate 1 }
  valid := rfl

/-- The silent account fails the check, and without it the check passes. -/
theorem halfSilent_passes_without_silence :
    halfSilent.settings.concurrency ≤ Check.maxPermits ∧ halfSilent.source.Calm ∧
      (∃ report,
        (halfSilent.checkAddresses "sample" .empty [.uniform 3, .uniform 2]).map Checked.report =
          .ok report ∧ report.passed false = false) ∧
      ∃ report,
        (halfSilent.checkAddresses "sample" .empty [.uniform 3]).map Checked.report =
          .ok report ∧ report.passed true = true := by
  have hpermits : halfSilent.settings.concurrency ≤ Check.maxPermits := by decide
  have hcalm : halfSilent.source.Calm := by
    intro a
    by_cases ha : a = .uniform 2 <;> simp [halfSilent, ha, Lookup.immediate]
  refine ⟨hpermits, hcalm, ?_, ?_⟩
  · obtain ⟨report, hreport, -, -, -, hunanswered, -⟩ :=
      passes_iff_each_address_does halfSilent hpermits hcalm "sample" .empty
        [.uniform 3, .uniform 2]
    refine ⟨report, hreport, (hunanswered (.uniform 2) (by decide) rfl ?_).1⟩
    rintro f ⟨⟨-, d, hd, -⟩, -⟩
    simp [halfSilent] at hd
  · obtain ⟨report, hreport, -, -, hclears, -⟩ :=
      passes_iff_each_address_does halfSilent hpermits hcalm "sample" .empty [.uniform 3]
    refine ⟨report, hreport, hclears.2 fun a ha => .inr ⟨⟨some [0x60, 0xff, 0x00], 1⟩, ?_, .inr ?_⟩⟩
    · rw [List.mem_singleton.1 ha]
      exact ⟨⟨rfl, 5, rfl, by decide⟩, rfl, 0, rfl, by decide⟩
    · have hsafe : verdict [0x60, 0xff, 0x00] = .safe := by cbv
      obtain ⟨hself, hdelegate⟩ := verdict_eq_safe_iff.1 hsafe
      exact ⟨_, rfl, by decide, hself, hdelegate⟩

end Checker
end ProposalVetting
