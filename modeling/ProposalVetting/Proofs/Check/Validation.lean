import ProposalVetting.Proofs.Check.Policy
import ProposalVetting.Proofs.Check.Sequence

namespace ProposalVetting
open Failure

namespace Proposal

variable {p : Proposal} {check : Check} {e : ConfigError}

/-- The texts that a check reads as addresses. -/
def readBy (p : Proposal) (check : Check) : List String :=
  p.governor :: p.timelock :: (p.trusted ++ match check with
    | .targets => p.targets
    | .touched => p.touched)

theorem exists_addresses_eq_ok_iff {field : String} {texts : List String} :
    (∃ as, addressesIn field texts = .ok as) ↔ ∀ text ∈ texts, ∃ a, Input.address text = .ok a := by
  rw [← readAll_map, exists_readAll_eq_ok_iff, List.forall_mem_map]

theorem exists_scope_iff :
    (∃ scope, p.scope check = .ok scope) ↔
      (∃ trusted, p.trustSet = .ok trusted) ∧ ∃ addresses, check.addresses p = .ok addresses := by
  simp only [Prod.exists, scope_eq_ok_iff, exists_and_left, exists_and_right]

theorem exists_scope_eq_ok_iff :
    (∃ scope, p.scope check = .ok scope) ↔
      ∀ text ∈ p.readBy check, ∃ a, Input.address text = .ok a := by
  rw [exists_scope_iff, exists_trustSet_eq_ok_iff, exists_readAll_eq_ok_iff]
  simp only [exempt, readBy, List.forall_mem_cons, List.forall_mem_append,
    List.forall_mem_map, and_assoc]
  cases check <;>
    simp only [Check.addresses, targetAddresses, touchedAddresses, exists_addresses_eq_ok_iff]

theorem exists_scope_eq_error_iff :
    (∃ e, p.scope check = .error e) ↔
      ∃ text ∈ p.readBy check, ∃ cause, Input.address text = .error cause := by
  rw [← not_ok_iff, exists_scope_eq_ok_iff]
  simp only [not_forall, not_ok_iff, exists_prop]

/-- What is wrong with a proposal is what is wrong with its first check, or else with its second. -/
theorem validate_eq_error_iff_scope :
    p.validate = .error e ↔
      p.scope .targets = .error e ∨ (∃ scope, p.scope .targets = .ok scope) ∧
        p.scope .touched = .error e := by
  rw [validate_eq_error_iff, exists_scope_iff, scope_eq_error_iff, scope_eq_error_iff]
  simp only [Check.addresses]
  constructor
  · rintro (h | ⟨htrusted, h | ⟨htargets, h⟩⟩)
    · exact .inl (.inl h)
    · exact .inl (.inr ⟨htrusted, h⟩)
    · exact .inr ⟨⟨htrusted, htargets⟩, .inr ⟨htrusted, h⟩⟩
  · rintro ((h | ⟨htrusted, h⟩) | ⟨⟨htrusted, htargets⟩, h | ⟨-, h⟩⟩)
    · exact .inl h
    · exact .inr ⟨htrusted, .inl h⟩
    · exact .inl h
    · exact .inr ⟨htrusted, .inr ⟨htargets, h⟩⟩

theorem exists_scope_eq_ok_of_valid (hvalid : p.validate = .ok ()) :
    ∃ scope, p.scope check = .ok scope := by
  by_contra hscope
  obtain ⟨e, hscope⟩ := not_ok_iff.1 hscope
  have hinvalid : ∃ e, p.validate = .error e := by
    cases check with
    | targets => exact ⟨e, validate_eq_error_iff_scope.2 (.inl hscope)⟩
    | touched =>
      cases htargets : p.scope .targets with
      | error f => exact ⟨f, validate_eq_error_iff_scope.2 (.inl htargets)⟩
      | ok scope => exact ⟨e, validate_eq_error_iff_scope.2 (.inr ⟨⟨scope, htargets⟩, hscope⟩)⟩
  rw [hvalid] at hinvalid
  simp at hinvalid

theorem parse_validates {document : String} (h : parse document = .ok p) : p.validate = .ok () := by
  rw [parse, bind_eq_ok_iff] at h
  obtain ⟨q, -, h⟩ := h
  rw [bind_eq_ok_iff] at h
  obtain ⟨⟨⟩, hvalid, h⟩ := h
  cases h
  exact hvalid

end Proposal

namespace Checker

variable {c : Checker} {p : Proposal} {check : Check}

/-- A check fails only for what it cannot read. -/
theorem run_eq_error_iff (hpermits : c.settings.concurrency ≤ Check.maxPermits)
    (hcalm : c.source.Calm) {e : CheckError} :
    c.run check p = .error e ↔ ∃ cause, p.scope check = .error cause ∧ e = .config cause := by
  cases h : p.scope check with
  | error cause => simp [run_of_scope_error h, eq_comm]
  | ok scope =>
    obtain ⟨checked, hchecked⟩ := checkAddresses_eq_ok hpermits hcalm check.title scope.1 scope.2
    simp [run_of_scope_ok h, hchecked]

theorem exists_run_eq_ok_iff (hpermits : c.settings.concurrency ≤ Check.maxPermits)
    (hcalm : c.source.Calm) :
    (∃ checked, c.run check p = .ok checked) ↔ ∃ scope, p.scope check = .ok scope := by
  cases h : p.scope check with
  | error cause => simp [run_of_scope_error h]
  | ok scope =>
    simpa [run_of_scope_ok h] using checkAddresses_eq_ok hpermits hcalm check.title scope.1 scope.2

theorem runAll_eq : c.runAll p =
    (c.run .targets p >>= fun targets => c.run .touched p >>= fun touched =>
      pure [targets, touched]) := by
  simp only [runAll, Check.all, List.mapM_cons, List.mapM_nil, bind_assoc, pure_bind]

theorem runAll_eq_ok {targets touched : Checked} (htargets : c.run .targets p = .ok targets)
    (htouched : c.run .touched p = .ok touched) : c.runAll p = .ok [targets, touched] := by
  rw [runAll_eq, htargets, htouched]
  rfl

theorem runAll_eq_error_iff (hpermits : c.settings.concurrency ≤ Check.maxPermits)
    (hcalm : c.source.Calm) {e : CheckError} :
    c.runAll p = .error e ↔ ∃ cause, p.validate = .error cause ∧ e = .config cause := by
  have hrun : c.runAll p = .error e ↔
      c.run .targets p = .error e ∨ (∃ targets, c.run .targets p = .ok targets) ∧
        c.run .touched p = .error e := by
    rw [runAll_eq]
    cases c.run .targets p <;> cases c.run .touched p <;>
      simp [bind, Except.bind, pure, Except.pure]
  rw [hrun, run_eq_error_iff hpermits hcalm, run_eq_error_iff hpermits hcalm,
    exists_run_eq_ok_iff hpermits hcalm]
  simp only [Proposal.validate_eq_error_iff_scope]
  constructor
  · rintro (⟨cause, h, he⟩ | ⟨hscope, cause, h, he⟩)
    · exact ⟨cause, .inl h, he⟩
    · exact ⟨cause, .inr ⟨hscope, h⟩, he⟩
  · rintro ⟨cause, h | ⟨hscope, h⟩, he⟩
    · exact .inl ⟨cause, h, he⟩
    · exact .inr ⟨hscope, cause, h, he⟩

/-- Every schedule returns what the checker's own run does. -/
theorem runReturns_iff (hpermits : c.settings.concurrency ≤ Check.maxPermits)
    (hcalm : c.source.Calm) {x : Except CheckError Report} :
    c.RunReturns c.results p check x ↔ x = (c.run check p).map Checked.report := by
  refine ⟨fun h => ?_, fun h => h ▸ runReturns_run c p check⟩
  cases h with
  | malformed hscope =>
    rw [run_of_scope_error hscope]
    rfl
  | checked hscope hx =>
    obtain ⟨report, hreport⟩ := exists_report_of_calm hpermits hcalm _ _ _
    rw [run_of_scope_ok hscope, (hreport _).1 hx]
    exact ((hreport _).1 (returns_checkAddresses c _ _ _)).symm

theorem runAllReturns_iff (hpermits : c.settings.concurrency ≤ Check.maxPermits)
    (hcalm : c.source.Calm) {checks : List Check} {x : Except CheckError (List Report)} :
    c.RunAllReturns (fun _ => c.results) p checks x ↔
      x = (checks.mapM fun check => c.run check p).map (List.map Checked.report) := by
  refine ⟨fun h => ?_, fun h => h ▸ runAllReturns_mapM c p checks⟩
  induction h with
  | nil => rfl
  | @fail check rest e hrun =>
    have hrun := (runReturns_iff hpermits hcalm).1 hrun
    rw [List.mapM_cons, map_eq_error_iff.1 hrun.symm]
    rfl
  | @cons check rest report x hrun hrest ih =>
    have hrun := (runReturns_iff hpermits hcalm).1 hrun
    obtain ⟨checked, hchecked, rfl⟩ := map_eq_ok_iff.1 hrun.symm
    rw [ih, List.mapM_cons, hchecked]
    cases rest.mapM fun check => c.run check p <;> rfl

/-- Validation and running agree on every proposal, read from a document or not. A check of one kind
does not ask for what only the other one reads. -/
theorem runs_agree_with_validation (c : Checker)
    (hpermits : c.settings.concurrency ≤ Check.maxPermits) (hcalm : c.source.Calm) (p : Proposal) :
    (∀ e, c.runAll p = .error (.config e) ↔ p.validate = .error e) ∧
    (∀ e, p.validate = .error e ↔ Proposal.FirstUnreadable p.written e) ∧
    (p.validate = .ok () → ∃ targets touched, c.run .targets p = .ok targets ∧
      c.run .touched p = .ok touched ∧ c.runAll p = .ok [targets, touched]) ∧
    (∀ check, (∃ e, c.run check p = .error e) ↔
      ∃ text ∈ p.readBy check, ∃ cause, Input.address text = .error cause) ∧
    (∀ document, Proposal.parse document = .ok p →
      ∀ e, c.runAll p ≠ .error (.config e) ∧ ∀ check, c.run check p ≠ .error (.config e)) ∧
    (∀ check x, c.RunReturns c.results p check x ↔ x = (c.run check p).map Checked.report) ∧
    (∀ x, c.RunAllReturns (fun _ => c.results) p Check.all x ↔
      x = (c.runAll p).map (List.map Checked.report)) := by
  have hrunAll (e : ConfigError) : c.runAll p = .error (.config e) ↔ p.validate = .error e := by
    simp [runAll_eq_error_iff hpermits hcalm]
  have hruns (hvalid : p.validate = .ok ()) (check : Check) :
      ∃ checked, c.run check p = .ok checked :=
    (exists_run_eq_ok_iff hpermits hcalm).2 (Proposal.exists_scope_eq_ok_of_valid hvalid)
  refine ⟨hrunAll, fun e => Proposal.validate_eq_error_iff_firstUnreadable, fun hvalid => ?_,
    fun check => ?_, fun document hparse e => ?_, fun check x => runReturns_iff hpermits hcalm,
    fun x => runAllReturns_iff hpermits hcalm⟩
  · obtain ⟨targets, htargets⟩ := hruns hvalid .targets
    obtain ⟨touched, htouched⟩ := hruns hvalid .touched
    exact ⟨targets, touched, htargets, htouched, runAll_eq_ok htargets htouched⟩
  · rw [← Proposal.exists_scope_eq_error_iff]
    simp only [run_eq_error_iff hpermits hcalm]
    exact ⟨fun ⟨_, cause, h, _⟩ => ⟨cause, h⟩, fun ⟨cause, h⟩ => ⟨_, cause, h, rfl⟩⟩
  · have hvalid := Proposal.parse_validates hparse
    constructor
    · rw [Ne, hrunAll, hvalid]
      simp
    · intro check
      obtain ⟨checked, hchecked⟩ := hruns hvalid check
      rw [hchecked]
      simp

/-- A proposal that was not validated: one of its targets is too short, and no touched address can
be read either. -/
def unvalidated : Proposal where
  daoName := "sample"
  governor := "0x1111111111111111111111111111111111111111"
  timelock := " 0X2222222222222222222222222222222222222222"
  targets := ["2222222222222222222222222222222222222222", "0x1234"]
  touched := ["0xnothex"]

/-- The short target is what validation finds, and what ends the run of all checks. -/
theorem sequential_stops_at_short_target :
    sequential.settings.concurrency ≤ Check.maxPermits ∧ sequential.source.Calm ∧
      unvalidated.validate = .error (.address "targets" (.addressLength "0x1234" 2)) ∧
      sequential.runAll unvalidated =
        .error (.config (.address "targets" (.addressLength "0x1234" 2))) := by
  have hpermits : sequential.settings.concurrency ≤ Check.maxPermits := by decide
  have hcalm : sequential.source.Calm :=
    fun a => by simp [sequential, Snapshot.source, Lookup.immediate]
  obtain ⟨hrunAll, hfirst, -⟩ := runs_agree_with_validation sequential hpermits hcalm unvalidated
  have hvalidate : unvalidated.validate =
      .error (.address "targets" (.addressLength "0x1234" 2)) := by
    rw [hfirst]
    refine ⟨unvalidated.written.take 3, "targets", "0x1234", [("touchedAddresses", "0xnothex")], _,
      rfl, ?_, ?_, rfl⟩
    · exact List.forall_mem_cons.2
        ⟨⟨.uniform 0x11, by decide⟩,
          List.forall_mem_cons.2
            ⟨⟨.uniform 0x22, by decide⟩,
              List.forall_mem_cons.2 ⟨⟨.uniform 0x22, by decide⟩, by simp⟩⟩⟩
    · decide
  exact ⟨hpermits, hcalm, hvalidate, (hrunAll _).2 hvalidate⟩

end Checker
end ProposalVetting
