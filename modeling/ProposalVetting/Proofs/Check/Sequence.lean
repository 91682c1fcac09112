import ProposalVetting.Proofs.Check.Completion
import ProposalVetting.Proofs.Proposal.Reading

namespace ProposalVetting
open Failure

/-- The addresses that a check of the proposal exempts, and those that it looks at. -/
def Proposal.scope (p : Proposal) (check : Check) :
    Except ConfigError (TrustSet × List Address) := do
  let trusted ← p.trustSet
  let addresses ← check.addresses p
  return (trusted, addresses)

theorem Proposal.scope_eq_ok_iff {p : Proposal} {check : Check} {trusted : TrustSet}
    {addresses : List Address} :
    p.scope check = .ok (trusted, addresses) ↔
      p.trustSet = .ok trusted ∧ check.addresses p = .ok addresses := by
  rw [scope]
  cases p.trustSet <;> cases check.addresses p <;> simp [bind, Except.bind, pure, Except.pure]

theorem Proposal.scope_eq_error_iff {p : Proposal} {check : Check} {e : ConfigError} :
    p.scope check = .error e ↔
      p.trustSet = .error e ∨ (∃ trusted, p.trustSet = .ok trusted) ∧
        check.addresses p = .error e := by
  rw [scope]
  cases p.trustSet <;> cases check.addresses p <;> simp [bind, Except.bind, pure, Except.pure]

namespace Checker

variable {c : Checker} {result : Address → Fetched} {p : Proposal} {check : Check}

/-- What one check of a proposal can return when the lookups of each address end as `result`
says. -/
inductive RunReturns (c : Checker) (result : Address → Fetched) (p : Proposal) (check : Check) :
    Except CheckError Report → Prop where
  | malformed {e : ConfigError} (h : p.scope check = .error e) :
    RunReturns c result p check (.error (.config e))
  | checked {trusted : TrustSet} {addresses : List Address} {x : Except CheckError Report}
    (h : p.scope check = .ok (trusted, addresses))
    (hx : c.Returns result check.title trusted addresses x) :
    RunReturns c result p check x

/-- What several checks can return. The first that fails ends them, and lookups may end otherwise in
each of them. -/
inductive RunAllReturns (c : Checker) (results : Check → Address → Fetched) (p : Proposal) :
    List Check → Except CheckError (List Report) → Prop where
  | nil : RunAllReturns c results p [] (.ok [])
  | fail {check : Check} {rest : List Check} {e : CheckError}
    (h : c.RunReturns (results check) p check (.error e)) :
    RunAllReturns c results p (check :: rest) (.error e)
  | cons {check : Check} {rest : List Check} {report : Report} {x : Except CheckError (List Report)}
    (h : c.RunReturns (results check) p check (.ok report))
    (hrest : RunAllReturns c results p rest x) :
    RunAllReturns c results p (check :: rest) (x.map (report :: ·))

theorem run_of_scope_error {e : ConfigError} (h : p.scope check = .error e) :
    c.run check p = .error (.config e) := by
  rw [run]
  rcases Proposal.scope_eq_error_iff.1 h with htrusted | ⟨⟨trusted, htrusted⟩, haddresses⟩
  · rw [htrusted]
    rfl
  · rw [htrusted, haddresses]
    rfl

theorem run_of_scope_ok {trusted : TrustSet} {addresses : List Address}
    (h : p.scope check = .ok (trusted, addresses)) :
    c.run check p = c.checkAddresses check.title trusted addresses := by
  obtain ⟨htrusted, haddresses⟩ := Proposal.scope_eq_ok_iff.1 h
  rw [run, htrusted, haddresses]
  rfl

theorem runReturns_run (c : Checker) (p : Proposal) (check : Check) :
    c.RunReturns c.results p check ((c.run check p).map Checked.report) := by
  cases h : p.scope check with
  | error e =>
    rw [run_of_scope_error h]
    exact .malformed h
  | ok scope =>
    rw [run_of_scope_ok h]
    exact .checked h (returns_checkAddresses c _ _ _)

theorem runAllReturns_mapM (c : Checker) (p : Proposal) (checks : List Check) :
    c.RunAllReturns (fun _ => c.results) p checks
      ((checks.mapM fun check => c.run check p).map (List.map Checked.report)) := by
  induction checks with
  | nil => exact .nil
  | cons check rest ih =>
    have hrun := runReturns_run c p check
    rw [List.mapM_cons]
    cases h : c.run check p with
    | error e =>
      rw [h] at hrun
      exact .fail hrun
    | ok checked =>
      rw [h] at hrun
      have hcons : c.RunAllReturns (fun _ => c.results) p (check :: rest) _ := .cons hrun ih
      convert hcons using 1
      cases rest.mapM fun check => c.run check p <;> rfl

/-- The checker's own run of all checks is one of the schedules. -/
theorem runAllReturns_runAll (c : Checker) (p : Proposal) :
    c.RunAllReturns (fun _ => c.results) p Check.all ((c.runAll p).map (List.map Checked.report)) :=
  runAllReturns_mapM c p Check.all

theorem exists_returns (c : Checker) (result : Address → Fetched) (name : String)
    (trusted : TrustSet) (addresses : List Address) :
    ∃ x, c.Returns result name trusted addresses x := by
  by_cases hpermits : Check.maxPermits < c.settings.concurrency
  · exact ⟨_, .refused hpermits⟩
  · obtain ⟨r, hrun, hover⟩ := exists_over c result trusted addresses
    exact ⟨_, .finished (UInt64.not_lt.1 hpermits) hrun hover⟩

theorem exists_runReturns (c : Checker) (result : Address → Fetched) (p : Proposal)
    (check : Check) :
    ∃ x, c.RunReturns result p check x := by
  cases h : p.scope check with
  | error e => exact ⟨_, .malformed h⟩
  | ok scope =>
    obtain ⟨x, hx⟩ := exists_returns c result check.title scope.1 scope.2
    exact ⟨x, .checked h hx⟩

theorem exists_runAllReturns (c : Checker) (results : Check → Address → Fetched) (p : Proposal)
    (checks : List Check) :
    ∃ x, c.RunAllReturns results p checks x := by
  induction checks with
  | nil => exact ⟨_, .nil⟩
  | cons check rest ih =>
    obtain ⟨x, hx⟩ := ih
    obtain ⟨y, hy⟩ := exists_runReturns c (results check) p check
    cases y with
    | error e => exact ⟨_, .fail hy⟩
    | ok report => exact ⟨_, .cons hy hx⟩

end Checker
end ProposalVetting
