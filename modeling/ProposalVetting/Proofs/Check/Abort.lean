import ProposalVetting.Proofs.Check.Policy
import ProposalVetting.Proofs.Check.Sequence

namespace ProposalVetting

/-- No pool could be made, and the program went down with the check. -/
def Aborts {α : Type} (x : Except CheckError α) : Prop := ∃ wanted, x = .error (.permits wanted)

/-- A result, or what is wrong with the proposal. -/
def Answered {α : Type} (x : Except CheckError α) : Prop :=
  (∃ a, x = .ok a) ∨ ∃ e, x = .error (.config e)

section Rules

variable {α β : Type} {f : α → β} {g : α → Except CheckError β} {x : Except CheckError α}

theorem not_aborts_ok (a : α) : ¬ Aborts (.ok a) := by
  rintro ⟨wanted, h⟩
  cases h

theorem not_aborts_bind (hx : ¬ Aborts x) (hg : ∀ a, ¬ Aborts (g a)) : ¬ Aborts (x >>= g) := by
  rintro ⟨wanted, h⟩
  rcases Failure.bind_eq_error_iff.1 h with h | ⟨a, -, h⟩
  · exact hx ⟨wanted, h⟩
  · exact hg a ⟨wanted, h⟩

theorem aborts_map_iff : Aborts (x.map f) ↔ Aborts x :=
  exists_congr fun _ => Failure.map_eq_error_iff

theorem answered_map_iff : Answered (x.map f) ↔ Answered x := by
  refine or_congr ?_ (exists_congr fun _ => Failure.map_eq_error_iff)
  simp only [Failure.map_eq_ok_iff]
  constructor
  · rintro ⟨_, a, ha, -⟩
    exact ⟨a, ha⟩
  · rintro ⟨a, ha⟩
    exact ⟨f a, a, ha, rfl⟩

end Rules

namespace Check

variable {trusted : TrustSet} {addresses : List Address} {landed : List Landing}
  {slots : List (Option Outcome)}

theorem not_aborts_enter : ¬ Aborts (enter trusted slots landed) := by
  induction landed generalizing slots with
  | nil => exact not_aborts_ok _
  | cons l rest ih =>
    rw [enter]
    cases outcome? trusted l.task.address l.result with
    | some o => exact ih
    | none =>
      rintro ⟨wanted, h⟩
      cases h

theorem not_aborts_pair : ¬ Aborts (pair addresses slots) := by
  induction addresses generalizing slots with
  | nil => exact not_aborts_ok _
  | cons a rest ih =>
    rcases slots with _ | ⟨_ | o, slots⟩
    · exact not_aborts_ok _
    · rintro ⟨wanted, h⟩
      cases h
    · exact not_aborts_bind ih fun _ => not_aborts_ok _

theorem not_aborts_assemble {name : String} :
    ¬ Aborts (assemble name trusted addresses landed) :=
  not_aborts_bind not_aborts_enter fun _ => not_aborts_bind not_aborts_pair fun _ => not_aborts_ok _

end Check

namespace Checker

variable {c : Checker} {result : Address → Fetched} {results : Check → Address → Fetched}
  {name : String} {trusted : TrustSet} {addresses : List Address} {p : Proposal} {check : Check}
  {checks : List Check}

theorem Returns.aborts_iff {x : Except CheckError Report}
    (h : c.Returns result name trusted addresses x) :
    Aborts x ↔ Check.maxPermits < c.settings.concurrency := by
  cases h with
  | refused hpermits => exact iff_of_true ⟨_, rfl⟩ hpermits
  | finished hpermits => exact iff_of_false Check.not_aborts_assemble (UInt64.not_lt.2 hpermits)

theorem RunReturns.aborts_iff {x : Except CheckError Report} (h : c.RunReturns result p check x) :
    Aborts x ↔ Check.maxPermits < c.settings.concurrency ∧ ∃ scope, p.scope check = .ok scope := by
  cases h with
  | malformed hscope =>
    apply iff_of_false
    · rintro ⟨wanted, h⟩
      cases h
    · rintro ⟨-, scope, h⟩
      rw [hscope] at h
      cases h
  | checked hscope hx => rw [hx.aborts_iff, and_iff_left ⟨_, hscope⟩]

theorem RunAllReturns.not_aborts (hpermits : c.settings.concurrency ≤ Check.maxPermits)
    {x : Except CheckError (List Report)} (h : c.RunAllReturns results p checks x) :
    ¬ Aborts x := by
  induction h with
  | nil => exact not_aborts_ok _
  | fail hrun =>
    rintro ⟨wanted, h⟩
    cases h
    exact UInt64.not_lt.2 hpermits (hrun.aborts_iff.1 ⟨wanted, rfl⟩).1
  | cons hrun hrest ih => rwa [aborts_map_iff]

/-- The first check decides, since the permits that one check gets are there for the next one
too. -/
theorem RunAllReturns.aborts_iff {x : Except CheckError (List Report)}
    (h : c.RunAllReturns results p (check :: checks) x) :
    Aborts x ↔ Check.maxPermits < c.settings.concurrency ∧ ∃ scope, p.scope check = .ok scope := by
  cases h with
  | fail hrun =>
    rw [← hrun.aborts_iff]
    simp [Aborts]
  | @cons _ _ report x hrun hrest =>
    have hsafe := hrun.aborts_iff.not.1 (not_aborts_ok report)
    rw [aborts_map_iff]
    refine iff_of_false (hrest.not_aborts ?_) hsafe
    -- a check that reports has read its addresses, so it was the permits that were there
    rw [← UInt64.not_lt]
    intro hpermits
    cases hrun with
    | checked hscope _ => exact hsafe ⟨hpermits, _, hscope⟩

theorem Returns.reports (hpermits : c.settings.concurrency ≤ Check.maxPermits)
    (hcalm : ∀ a, result a ≠ .crashed) {x : Except CheckError Report}
    (h : c.Returns result name trusted addresses x) : ∃ report, x = .ok report := by
  cases h with
  | refused hlt => exact absurd hpermits (UInt64.not_le.2 hlt)
  | finished _ hrun hover =>
    obtain ⟨outcome, houtcome⟩ := Check.exists_outcomes trusted fun a _ _ => hcalm a
    exact ⟨_, assemble_of_over hrun hover houtcome⟩

theorem RunReturns.answered (hpermits : c.settings.concurrency ≤ Check.maxPermits)
    (hcalm : ∀ a, result a ≠ .crashed) {x : Except CheckError Report}
    (h : c.RunReturns result p check x) : Answered x := by
  cases h with
  | malformed => exact .inr ⟨_, rfl⟩
  | checked _ hx => exact .inl (hx.reports hpermits hcalm)

theorem RunAllReturns.answered (hpermits : c.settings.concurrency ≤ Check.maxPermits)
    (hcalm : ∀ check a, results check a ≠ .crashed) {x : Except CheckError (List Report)}
    (h : c.RunAllReturns results p checks x) : Answered x := by
  induction h with
  | nil => exact .inl ⟨[], rfl⟩
  | fail hrun =>
    rcases hrun.answered hpermits (hcalm _) with ⟨report, h⟩ | ⟨e, h⟩
    · cases h
    · cases h
      exact .inr ⟨e, rfl⟩
  | cons hrun hrest ih =>
    rcases ih with ⟨reports, rfl⟩ | ⟨e, rfl⟩
    · exact .inl ⟨_, rfl⟩
    · exact .inr ⟨e, rfl⟩

/-- Something can come back, and whatever does is an answer. -/
def Settles {α : Type} (R : Except CheckError α → Prop) : Prop :=
  (∃ x, R x) ∧ ∀ x, R x → Answered x

/-- However lookups end that do not crash, no check goes on forever and none aborts. -/
structure Safe (c : Checker) : Prop where
  ends : ∀ result trusted addresses (rounds : Nat → Round), rounds 0 = c.start trusted addresses →
    ¬ ∀ n, Round.Step result (rounds n) (rounds (n + 1))
  checks : ∀ result, (∀ a, result a ≠ .crashed) → ∀ name trusted addresses,
    Settles (c.Returns result name trusted addresses)
  runs : ∀ result, (∀ a, result a ≠ .crashed) → ∀ p check, Settles (c.RunReturns result p check)
  runsAll : ∀ results, (∀ check a, results check a ≠ .crashed) →
    ∀ p, Settles (c.RunAllReturns results p Check.all)

theorem safe_of_permits (hpermits : c.settings.concurrency ≤ Check.maxPermits) : c.Safe where
  ends result trusted addresses rounds hstart := by
    have hinv : (rounds 0).Inv result c.settings.concurrency.toNat
        (Check.tasks trusted (Check.distinct addresses)) := by
      rw [hstart]
      exact Round.inv_start result _ _
    exact hinv.not_forever
  checks result hcalm name trusted addresses :=
    ⟨exists_returns c result name trusted addresses, fun _ hx => .inl (hx.reports hpermits hcalm)⟩
  runs result hcalm p check :=
    ⟨exists_runReturns c result p check, fun _ hx => hx.answered hpermits hcalm⟩
  runsAll results hcalm p :=
    ⟨exists_runAllReturns c results p Check.all, fun _ hx => hx.answered hpermits hcalm⟩

section Own

theorem aborts_checkAddresses_iff :
    Aborts (c.checkAddresses name trusted addresses) ↔ Check.maxPermits < c.settings.concurrency :=
  aborts_map_iff.symm.trans (returns_checkAddresses c name trusted addresses).aborts_iff

theorem aborts_run_iff : Aborts (c.run check p) ↔
    Check.maxPermits < c.settings.concurrency ∧ ∃ scope, p.scope check = .ok scope :=
  aborts_map_iff.symm.trans (runReturns_run c p check).aborts_iff

theorem aborts_runAll_iff : Aborts (c.runAll p) ↔
    Check.maxPermits < c.settings.concurrency ∧ ∃ scope, p.scope .targets = .ok scope :=
  aborts_map_iff.symm.trans (runAllReturns_runAll c p).aborts_iff

variable (hpermits : c.settings.concurrency ≤ Check.maxPermits) (hcalm : c.source.Calm)
include hpermits hcalm

theorem answered_run : Answered (c.run check p) :=
  answered_map_iff.1 ((runReturns_run c p check).answered hpermits (results_ne_crashed hcalm))

theorem answered_runAll : Answered (c.runAll p) :=
  answered_map_iff.1 <|
    (runAllReturns_runAll c p).answered hpermits fun _ => results_ne_crashed hcalm

end Own

/-- Accepted settings are safe exactly when a pool can hold their permits. Then the checker's own
functions never abort, and they give an answer unless a lookup crashes. Otherwise it takes no more
than addresses that can be read, or none at all, for a check to abort. -/
theorem safe_iff_pool_holds_permits (c : Checker) :
    (c.Safe ↔ c.settings.concurrency ≤ Check.maxPermits) ∧
    (c.Safe → ∀ name trusted addresses p,
      ¬ Aborts (c.checkAddresses name trusted addresses) ∧
      (∀ check, ¬ Aborts (c.run check p)) ∧
      ¬ Aborts (c.runAll p) ∧
      (c.source.Calm →
        (∃ checked, c.checkAddresses name trusted addresses = .ok checked) ∧
        (∀ check, Answered (c.run check p)) ∧
        Answered (c.runAll p))) ∧
    (¬ c.Safe → ∀ name trusted addresses p,
      Aborts (c.checkAddresses name trusted addresses) ∧
      (∀ check, (∃ scope, p.scope check = .ok scope) → Aborts (c.run check p)) ∧
      ((∃ scope, p.scope .targets = .ok scope) → Aborts (c.runAll p))) := by
  have hsafe : c.Safe ↔ c.settings.concurrency ≤ Check.maxPermits := by
    refine ⟨fun h => ?_, safe_of_permits⟩
    rw [← UInt64.not_lt]
    intro hpermits
    -- an empty list of addresses is enough
    have hrefused :=
      (h.checks (fun _ => .facts .unused) (by simp) "" .empty []).2 _ (.refused hpermits)
    rcases hrefused with ⟨_, h⟩ | ⟨_, h⟩ <;> cases h
  refine ⟨hsafe, fun h name trusted addresses p => ?_, fun hmany name trusted addresses p => ?_⟩
  · have hpermits := hsafe.1 h
    have hfew := UInt64.not_lt.2 hpermits
    exact ⟨fun habort => hfew (aborts_checkAddresses_iff.1 habort),
      fun check habort => hfew (aborts_run_iff.1 habort).1,
      fun habort => hfew (aborts_runAll_iff.1 habort).1,
      fun hcalm => ⟨checkAddresses_eq_ok hpermits hcalm name trusted addresses,
        fun check => answered_run hpermits hcalm, answered_runAll hpermits hcalm⟩⟩
  · rw [hsafe, UInt64.not_le] at hmany
    exact ⟨aborts_checkAddresses_iff.2 hmany,
      fun check hscope => aborts_run_iff.2 ⟨hmany, hscope⟩,
      fun hscope => aborts_runAll_iff.2 ⟨hmany, hscope⟩⟩

/-- One permit more than a pool can hold. -/
def greedy : Checker :=
  ⟨{ Settings.default with concurrency := Check.maxPermits + 1 }, Snapshot.empty.source, rfl⟩

/-- The settings are accepted and no lookup crashes, and still the check of an empty list aborts. -/
theorem greedy_aborts_without_addresses :
    ofSettings greedy.settings greedy.source = .ok greedy ∧ greedy.source.Calm ∧
      Aborts (greedy.checkAddresses "sample" .empty []) := by
  refine ⟨rfl, fun a => by simp [greedy, Snapshot.source, Lookup.immediate], ?_⟩
  exact aborts_checkAddresses_iff.2 (by decide)

end Checker
end ProposalVetting
