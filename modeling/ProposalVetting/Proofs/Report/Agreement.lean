import ProposalVetting.Proofs.Report.Buckets

namespace ProposalVetting

namespace Severity

variable {s t : Severity}

instance : LT Severity := ⟨fun s t => s.rank < t.rank⟩

theorem rank_inj (h : s.rank = t.rank) : s = t := by
  cases s <;> cases t <;> simp_all [rank]

instance : Std.IsLinearOrder Severity where
  le_refl s := Nat.le_refl s.rank
  le_trans _ _ _ hst htu := Nat.le_trans hst htu
  le_antisymm _ _ hst hts := rank_inj (Nat.le_antisymm hst hts)
  le_total s t := Nat.le_total s.rank t.rank

theorem max_eq (s t : Severity) : max s t = if s ≤ t then t else s := rfl

instance : Std.LawfulOrderMax Severity where
  max_eq_or s t := by
    rw [max_eq]
    split
    · exact .inr rfl
    · exact .inl rfl
  max_le_iff s t u := by
    rw [max_eq]
    split
    · next hst => exact ⟨fun htu => ⟨Nat.le_trans hst htu, htu⟩, fun h => h.2⟩
    · next hst => exact ⟨fun hsu => ⟨hsu, Nat.le_trans (Nat.le_of_not_le hst) hsu⟩, fun h => h.1⟩

theorem lt_of_le_of_lt {u : Severity} (hst : s ≤ t) (htu : t < u) : s < u :=
  Nat.lt_of_le_of_lt hst htu

theorem lt_iff_rank_lt : s < t ↔ s.rank < t.rank := Iff.rfl

theorem lt_error_iff : s < .error ↔ s ≠ .error := by
  cases s <;> simp [lt_iff_rank_lt, rank]

theorem lt_warning_iff : s < .warning ↔ s = .info := by
  cases s <;> simp [lt_iff_rank_lt, rank]

end Severity

namespace Report

variable {r : Report} {a : AddressReport} {pushed : List AddressReport} {name : String}
  {s : Severity}

/-- The buckets hold the messages of the listed addresses, each under its severity and in the order
of the list. -/
structure Agrees (r : Report) : Prop where
  filed : ∀ s, r.bucket s = (r.addresses.filter fun a => a.severity = s).map AddressReport.message
  counted : r.info.length + r.warnings.length + r.errors.length = r.addresses.length

theorem agrees_new (name : String) : Agrees { name } where
  filed s := by cases s <;> rfl
  counted := rfl

theorem Agrees.push (h : r.Agrees) (a : AddressReport) : (r.push a).Agrees where
  filed s := by
    rw [bucket_push, addresses_push, h.filed, List.filter_append, List.map_append]
    congr 1
    by_cases hs : a.severity = s <;> simp [hs]
  counted := by
    -- one bucket grows by one message, and so does the list
    have hcounted := h.counted
    unfold Report.push
    cases a.severity <;> simp only [List.length_append, List.length_singleton] <;> omega

theorem Agrees.foldl_push (h : r.Agrees) (pushed : List AddressReport) :
    (pushed.foldl Report.push r).Agrees := by
  induction pushed generalizing r with
  | nil => exact h
  | cons a rest ih => exact ih (h.push a)

theorem maxSeverity_eq_none_iff : r.maxSeverity = none ↔ r.addresses = [] := by
  rw [maxSeverity, List.max?_eq_none_iff, List.map_eq_nil_iff]

theorem maxSeverity_eq_some_iff :
    r.maxSeverity = some s ↔
      (∃ a ∈ r.addresses, a.severity = s) ∧ ∀ a ∈ r.addresses, a.severity ≤ s := by
  rw [maxSeverity, List.max?_eq_some_iff, List.mem_map, List.forall_mem_map]

/-- All severities stay below a bound when the greatest one does. -/
theorem forall_severity_lt_iff :
    (∀ a ∈ r.addresses, a.severity < s) ↔
      r.maxSeverity = none ∨ ∃ t, r.maxSeverity = some t ∧ t < s := by
  constructor
  · intro h
    cases hmax : r.maxSeverity with
    | none => exact .inl rfl
    | some t =>
      obtain ⟨⟨a, ha, rfl⟩, -⟩ := maxSeverity_eq_some_iff.1 hmax
      exact .inr ⟨_, rfl, h a ha⟩
  · rintro (hnone | ⟨t, hmax, hts⟩) a ha
    · rw [maxSeverity_eq_none_iff.1 hnone] at ha
      cases ha
    · exact Severity.lt_of_le_of_lt ((maxSeverity_eq_some_iff.1 hmax).2 a ha) hts

/-- The least severity that fails a report. -/
def failing (failOnWarning : Bool) : Severity := if failOnWarning then .warning else .error

theorem passed_build_iff {failOnWarning : Bool} :
    (build name pushed).passed failOnWarning = true ↔
      ∀ a ∈ pushed, a.severity < failing failOnWarning := by
  cases failOnWarning with
  | false =>
    simp only [passed_build_false_iff, failing, Bool.false_eq_true, if_false, Severity.lt_error_iff]
  | true => simp only [passed_build_true_iff, failing, if_true, Severity.lt_warning_iff]

/-- What can be read off a report, however it came about. The buckets divide up what was pushed, and
the two verdicts, one from the list and one from the buckets, never contradict each other. -/
theorem pushes_agree (name : String) (pushed : List AddressReport) :
    let r := pushed.foldl push { name }
    r.name = name ∧ r.addresses = pushed ∧
    r.info = (pushed.filter fun a => a.severity = .info).map AddressReport.message ∧
    r.warnings = (pushed.filter fun a => a.severity = .warning).map AddressReport.message ∧
    r.errors = (pushed.filter fun a => a.severity = .error).map AddressReport.message ∧
    r.info.length + r.warnings.length + r.errors.length = r.addresses.length ∧
    (r.maxSeverity = none ↔ pushed = []) ∧
    (∀ s, r.maxSeverity = some s ↔ (∃ a ∈ pushed, a.severity = s) ∧ ∀ a ∈ pushed, a.severity ≤ s) ∧
    ∀ failOnWarning, r.passed failOnWarning = true ↔
      r.maxSeverity = none ∨ ∃ s, r.maxSeverity = some s ∧
        s < if failOnWarning then .warning else .error := by
  intro r
  -- pushing everything in turn is what building a report does
  have hbuild : build name pushed = r := rfl
  have haddresses : r.addresses = pushed := by rw [← hbuild, addresses_build]
  have hagrees : r.Agrees := (agrees_new name).foldl_push pushed
  have hfiled := hagrees.filed
  rw [haddresses] at hfiled
  refine ⟨name_foldl_push, haddresses, hfiled .info, hfiled .warning, hfiled .error,
    hagrees.counted, ?_, ?_, ?_⟩
  · rw [maxSeverity_eq_none_iff, haddresses]
  · intro s
    rw [maxSeverity_eq_some_iff, haddresses]
  · intro failOnWarning
    rw [← hbuild, passed_build_iff, hbuild, ← haddresses]
    exact forall_severity_lt_iff

end Report
end ProposalVetting
