import ProposalVetting.Report
import Mathlib.Data.List.Basic

namespace ProposalVetting.Report

variable {r : Report} {a : AddressReport} {reports : List AddressReport} {s : Severity}
  {name : String}

/-- The messages that a report keeps under a severity. -/
def bucket (r : Report) : Severity → List String
  | .info => r.info
  | .warning => r.warnings
  | .error => r.errors

theorem addresses_push : (r.push a).addresses = r.addresses ++ [a] := by
  unfold push
  split <;> rfl

theorem bucket_push :
    (r.push a).bucket s = r.bucket s ++ if a.severity = s then [a.message] else [] := by
  unfold push
  cases h : a.severity <;> cases s <;> simp [bucket]

theorem name_foldl_push : (reports.foldl push r).name = r.name := by
  induction reports generalizing r with
  | nil => rfl
  | cons a rest ih =>
    rw [List.foldl_cons, ih]
    unfold push
    split <;> rfl

theorem addresses_foldl_push : (reports.foldl push r).addresses = r.addresses ++ reports := by
  induction reports generalizing r with
  | nil => simp
  | cons a rest ih =>
    rw [List.foldl_cons, ih, addresses_push, List.append_assoc, List.singleton_append]

theorem bucket_foldl_push :
    (reports.foldl push r).bucket s =
      r.bucket s ++ (reports.filter fun a => a.severity = s).map AddressReport.message := by
  induction reports generalizing r with
  | nil => simp
  | cons a rest ih =>
    rw [List.foldl_cons, ih, bucket_push, List.filter_cons]
    by_cases h : a.severity = s <;> simp [h]

theorem addresses_build : (build name reports).addresses = reports := by
  rw [build, addresses_foldl_push, List.nil_append]

theorem bucket_build :
    (build name reports).bucket s =
      (reports.filter fun a => a.severity = s).map AddressReport.message := by
  rw [build, bucket_foldl_push]
  cases s <;> rfl

theorem bucket_build_eq_nil_iff :
    (build name reports).bucket s = [] ↔ ∀ a ∈ reports, a.severity ≠ s := by
  rw [bucket_build, List.map_eq_nil_iff, List.filter_eq_nil_iff]
  simp

theorem passed_iff {failOnWarning : Bool} :
    r.passed failOnWarning = true ↔
      r.bucket .error = [] ∧ (failOnWarning = true → r.bucket .warning = []) := by
  unfold passed
  cases failOnWarning <;> simp [bucket]

theorem passed_build_false_iff :
    (build name reports).passed false = true ↔ ∀ a ∈ reports, a.severity ≠ .error := by
  rw [passed_iff, bucket_build_eq_nil_iff]
  simp

theorem passed_build_true_iff :
    (build name reports).passed true = true ↔ ∀ a ∈ reports, a.severity = .info := by
  rw [passed_iff, bucket_build_eq_nil_iff, bucket_build_eq_nil_iff]
  constructor
  · rintro ⟨herror, hwarning⟩ a ha
    have hne := herror a ha
    have hnw := hwarning rfl a ha
    cases h : a.severity with
    | info => rfl
    | warning => exact absurd h hnw
    | error => exact absurd h hne
  · intro h
    constructor
    · intro a ha
      rw [h a ha]
      decide
    · intro _ a ha
      rw [h a ha]
      decide

end ProposalVetting.Report
