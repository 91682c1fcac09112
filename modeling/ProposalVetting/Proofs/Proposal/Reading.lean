import ProposalVetting.Proofs.Failure
import ProposalVetting.Proposal

namespace ProposalVetting.Proposal
open Failure

/-- The addresses that are exempt, as written, each with its field. -/
def exempt (p : Proposal) : List (String × String) :=
  ("governorAddress", p.governor) :: ("timelockAddress", p.timelock) ::
    p.trusted.map (Prod.mk "trustedAddresses")

/-- All addresses in the order in which they are read. -/
def written (p : Proposal) : List (String × String) :=
  p.exempt ++ (p.targets.map (Prod.mk "targets") ++ p.touched.map (Prod.mk "touchedAddresses"))

def readAll (written : List (String × String)) : Except ConfigError (List Address) :=
  written.mapM fun w => addressIn w.1 w.2

/-- `e` names the first address that cannot be read. -/
def FirstUnreadable (written : List (String × String)) (e : ConfigError) : Prop :=
  ∃ before field text behind cause, written = before ++ (field, text) :: behind ∧
    (∀ w ∈ before, ∃ a, Input.address w.2 = .ok a) ∧
    Input.address text = .error cause ∧ e = .address field cause

variable {p : Proposal} {field text : String} {texts : List String} {e : ConfigError}
  {front back : List (String × String)}

theorem addressIn_eq_ok_iff {a : Address} :
    addressIn field text = .ok a ↔ Input.address text = .ok a :=
  mapError_eq_ok_iff

theorem addressIn_eq_error_iff :
    addressIn field text = .error e ↔
      ∃ cause, Input.address text = .error cause ∧ e = .address field cause := by
  simp only [addressIn, mapError_eq_error_iff, eq_comm (a := e)]

theorem readAll_map : readAll (texts.map (Prod.mk field)) = addressesIn field texts := by
  rw [readAll, List.mapM_map]
  rfl

theorem exists_readAll_eq_ok_iff :
    (∃ as, readAll front = .ok as) ↔ ∀ w ∈ front, ∃ a, Input.address w.2 = .ok a := by
  simp only [readAll, exists_mapM_eq_ok_iff, addressIn_eq_ok_iff]

theorem readAll_eq_error_iff : readAll front = .error e ↔ FirstUnreadable front e := by
  simp only [readAll, mapM_eq_error_iff, addressIn_eq_ok_iff, addressIn_eq_error_iff,
    FirstUnreadable, Prod.exists]
  constructor
  · rintro ⟨before, field, text, behind, h, hbefore, cause, hcause, he⟩
    exact ⟨before, field, text, behind, cause, h, hbefore, hcause, he⟩
  · rintro ⟨before, field, text, behind, cause, h, hbefore, hcause, he⟩
    exact ⟨before, field, text, behind, h, hbefore, cause, hcause, he⟩

theorem readAll_append_eq_error_iff :
    readAll (front ++ back) = .error e ↔
      readAll front = .error e ∨ (∃ as, readAll front = .ok as) ∧ readAll back = .error e := by
  simp only [readAll, List.mapM_append, bind_eq_error_iff]
  cases front.mapM fun w => addressIn w.1 w.2 <;> simp [pure, Except.pure]

theorem readAll_cons :
    readAll ((field, text) :: back) = do
      let a ← addressIn field text
      let as ← readAll back
      return a :: as := List.mapM_cons

theorem trustSet_eq : p.trustSet = (readAll p.exempt).map TrustSet.ofList := by
  rw [trustSet, exempt, readAll_cons, readAll_cons, readAll_map, governorAddress, timelockAddress]
  cases addressIn "governorAddress" p.governor with
  | error e => rfl
  | ok governor =>
    cases addressIn "timelockAddress" p.timelock with
    | error e => rfl
    | ok timelock => cases addressesIn "trustedAddresses" p.trusted <;> rfl

theorem trustSet_eq_error_iff : p.trustSet = .error e ↔ readAll p.exempt = .error e := by
  rw [trustSet_eq, map_eq_error_iff]

theorem exists_trustSet_eq_ok_iff :
    (∃ trusted, p.trustSet = .ok trusted) ↔ ∃ as, readAll p.exempt = .ok as := by
  rw [trustSet_eq]
  cases readAll p.exempt <;> simp [Except.map]

theorem validate_eq_error_iff :
    p.validate = .error e ↔
      p.trustSet = .error e ∨ (∃ trusted, p.trustSet = .ok trusted) ∧
        (p.targetAddresses = .error e ∨ (∃ as, p.targetAddresses = .ok as) ∧
          p.touchedAddresses = .error e) := by
  -- governor and timelock are read twice, and the second time nothing new comes of it
  have htwice : p.validate =
      p.trustSet >>= fun _ => p.targetAddresses >>= fun _ => p.touchedAddresses >>= fun _ =>
        pure () := by
    rw [validate, trustSet]
    cases p.governorAddress with
    | error e => rfl
    | ok governor => cases p.timelockAddress <;> rfl
  rw [htwice]
  cases p.trustSet <;> cases p.targetAddresses <;> cases p.touchedAddresses <;>
    simp [bind, Except.bind, pure, Except.pure]

theorem validate_eq_error_iff_firstUnreadable :
    p.validate = .error e ↔ FirstUnreadable p.written e := by
  rw [← readAll_eq_error_iff, written, readAll_append_eq_error_iff, readAll_append_eq_error_iff,
    readAll_map, readAll_map, validate_eq_error_iff, trustSet_eq_error_iff,
    exists_trustSet_eq_ok_iff]
  rfl

end ProposalVetting.Proposal
