import ProposalVetting.Proofs.Json.Codec
import ProposalVetting.Proposal

namespace ProposalVetting
open Json Decode Failure

namespace Duration

theorem exact_document (d : Duration) : Exact d.document := by
  refine ⟨exact_natural d.seconds.toNat_lt,
    exact_natural (Nat.lt_trans d.nanos_lt (by decide)), trivial⟩

/-- Less than a second carries nothing over. -/
theorem ofParts?_self (d : Duration) : ofParts? d.seconds d.nanos = some d := by
  have hnanos := d.nanos_lt
  have hcarry : d.nanos / 1000000000 = 0 := Nat.div_eq_of_lt hnanos
  have hfits : d.seconds.toNat < UInt64.size := d.seconds.toNat_lt
  simp only [ofParts?, hcarry, Nat.add_zero, if_pos hfits, Nat.mod_eq_of_lt hnanos,
    UInt64.ofNat_toNat]

theorem decode_document (d : Duration) : decode (reading d.document) = .ok d := by
  have hseconds := word_reading "u64" d.seconds
  have hnanos : natural "u32" 4294967295 (reading (Json.natural d.nanos)) = .ok d.nanos :=
    natural_reading (Nat.le_of_lt (Nat.lt_trans d.nanos_lt (by decide))) _
  rw [decode, document, Layout.decode_reading (by simp [layout])]
  simp [layout, Draft.read, Draft.finish, once_none, required, hseconds, hnanos, ofParts?_self,
    ok_bind, pure_eq_ok]

end Duration

namespace Settings

theorem exact_document (s : Settings) : Exact s.document :=
  ⟨s.timeout.exact_document, exact_natural s.concurrency.toNat_lt, trivial, trivial⟩

theorem decode_document (s : Settings) : decode (reading s.document) = .ok s := by
  have htimeout := s.timeout.decode_document
  have hconcurrency := word_reading "usize" s.concurrency
  have hfail : Decode.bool (reading (.bool s.failOnWarning)) = .ok s.failOnWarning := rfl
  rw [decode, document, Layout.decode_reading (by simp [layout])]
  simp [layout, Draft.read, Draft.finish, once_none, required, htimeout, hconcurrency, hfail,
    ok_bind, pure_eq_ok]

theorem readsBack (s : Settings) : ReadsBack decode document s :=
  readsBack_of_reading s.exact_document s.decode_document

end Settings

namespace Proposal

theorem exact_document (p : Proposal) : Exact p.document := by
  cases hid : p.proposalId with
  | none =>
    rw [document, hid]
    exact ⟨trivial, trivial, trivial, exact_strings _, exact_strings _, exact_strings _, trivial⟩
  | some id =>
    rw [document, hid]
    exact ⟨trivial, trivial, trivial, trivial, exact_strings _, exact_strings _,
      exact_strings _, trivial⟩

theorem decode_document (p : Proposal) : decode (reading p.document) = .ok p := by
  have htext (s : String) : Decode.text (reading (.text s)) = .ok s := rfl
  obtain ⟨daoName, governor, timelock, proposalId, targets, touched, trusted⟩ := p
  cases proposalId with
  | none =>
    rw [decode, document, Layout.decode_reading (by simp [layout])]
    simp [layout, Draft.read, Draft.finish, once_none, required, htext, strings_reading, ok_bind,
      pure_eq_ok]
  | some id =>
    have hid : Decode.optional Decode.text (reading (.text id)) = .ok (some id) := rfl
    rw [decode, document, Layout.decode_reading (by simp [layout])]
    simp [layout, Draft.read, Draft.finish, once_none, required, htext, hid, strings_reading,
      ok_bind, pure_eq_ok]

theorem readsBack (p : Proposal) : ReadsBack decode document p :=
  readsBack_of_reading p.exact_document p.decode_document

/-- The names of the members: the number of the proposal is among them when there is one. -/
theorem names_document (p : Proposal) : ∃ members, p.document = .object members ∧
    members.map Prod.fst = ["daoName", "governorAddress", "timelockAddress"] ++
      (if p.proposalId.isSome then ["proposalId"] else []) ++
        ["targets", "touchedAddresses", "trustedAddresses"] := by
  refine ⟨_, rfl, ?_⟩
  cases p.proposalId <;> rfl

/-- Reading what was written of a proposal is validating it. -/
theorem parse_written {p : Proposal} {text : String} (h : p.document.Written text) :
    parse text = p.validate.map fun _ => p := by
  rw [parse, p.readsBack.parse h]
  cases hvalid : p.validate <;>
    simp [Except.mapError, Except.map, hvalid, bind, Except.bind, pure, Except.pure]

/-- Reading a written proposal gives it back, with or without a number, as far as it is valid;
settings come back as they were, and no more or less valid. -/
theorem configuration_reads_back :
    (∀ p : Proposal, ReadsBack decode document p) ∧
    (∀ p : Proposal, ∃ members, p.document = .object members ∧
      members.map Prod.fst = ["daoName", "governorAddress", "timelockAddress"] ++
        (if p.proposalId.isSome then ["proposalId"] else []) ++
          ["targets", "touchedAddresses", "trustedAddresses"]) ∧
    (∀ (p : Proposal) (text : String), p.document.Written text →
      (parse text = .ok p ↔ p.validate = .ok ()) ∧ (∀ q, parse text = .ok q → q = p) ∧
      ∀ e, parse text = .error e ↔ p.validate = .error e) ∧
    (∀ s : Settings, ReadsBack Settings.decode Settings.document s) ∧
    ∀ (s : Settings) (text : String), s.document.Written text →
      (Json.parse Settings.decode text).map Settings.validate = .ok s.validate := by
  refine ⟨readsBack, names_document, fun p text h => ?_, Settings.readsBack, fun s text h => ?_⟩
  · rw [parse_written h]
    cases p.validate <;> simp [Except.map]
  · rw [s.readsBack.parse h]
    rfl

/-- No number, nothing to check, and a governor that is too short. -/
def sparse : Proposal where
  daoName := "say \"no\"\n"
  governor := "0x12"
  timelock := "0x2222222222222222222222222222222222222222"

/-- What is written of the proposal is refused for its governor, as the proposal itself is. -/
theorem sparse_is_refused :
    parse sparse.document.write = .error (.address "governorAddress" (.addressLength "0x12" 1)) ∧
    (Json.parse Settings.decode Settings.strict.document.writeIndented).map Settings.validate =
      .ok (.ok ()) := by
  have hvalidate : sparse.validate =
      .error (.address "governorAddress" (.addressLength "0x12" 1)) := by decide
  obtain ⟨-, -, hproposal, -, hsettings⟩ := configuration_reads_back
  obtain ⟨-, -, herror⟩ := hproposal sparse _ (.inl rfl)
  exact ⟨(herror _).2 hvalidate, hsettings .strict _ (.inr rfl)⟩

end Proposal
end ProposalVetting
