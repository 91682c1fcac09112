import ProposalVetting.Proofs.Account
import ProposalVetting.Proofs.Address.Checksum
import ProposalVetting.Proofs.Check.Asking
import ProposalVetting.Proofs.Snapshot.Spelling

namespace ProposalVetting
open Json

theorem Check.settled?_eq_trusted_iff {trusted : TrustSet} {result : Address → Fetched}
    {a : Address} :
    settled? trusted result a = some (.classified .trusted) ↔ trusted.contains a = true := by
  cases ha : trusted.contains a with
  | true => simp [settled?_of_trusted ha]
  | false =>
    rw [settled?_of_untrusted ha]
    cases result a <;> simp [outcome?, classify_eq_trusted_iff, ha]

/-- Two addresses are told apart in a report. -/
theorem AddressReport.of_inj {a b : Address} {o x : Outcome} :
    AddressReport.of a o = .of b x ↔ a = b ∧ o = x := by
  rw [of, of, AddressReport.mk.injEq, Address.checksum_inj]

namespace Checker

variable {c : Checker} {result : Address → Fetched} {name : String} {trusted : TrustSet}
  {addresses : List Address} {p q : Proposal} {check : Check} {report : Report} {a : Address}

/-- There is only one report, and a check returns it or none. -/
theorem Returns.exists_outcome (h : c.Returns result name trusted addresses (.ok report)) :
    ∃ outcome : Address → Outcome,
      (∀ a ∈ addresses, Check.settled? trusted result a = some (outcome a)) ∧
      report = settledReport name outcome addresses := by
  generalize hx : Except.ok report = x at h
  cases h with
  | refused => cases hx
  | finished _ hrun hover =>
    by_cases hcalm : ∀ a ∈ addresses, trusted.contains a = false → result a ≠ .crashed
    · obtain ⟨outcome, houtcome⟩ := Check.exists_outcomes trusted hcalm
      rw [assemble_of_over hrun hover houtcome] at hx
      exact ⟨outcome, houtcome, Except.ok.inj hx⟩
    · simp only [not_forall, not_not, exists_prop] at hcalm
      obtain ⟨a, ha, htrusted, hcrash⟩ := hcalm
      rw [assemble_of_over_crashed hrun hover ha htrusted hcrash] at hx
      cases hx

/-- A report says one thing of a listed address. -/
theorem Returns.exists_mem_addresses_iff
    (h : c.Returns result name trusted addresses (.ok report)) (ha : a ∈ addresses) :
    ∃ o, Check.settled? trusted result a = some o ∧ ∀ x, .of a x ∈ report.addresses ↔ x = o := by
  obtain ⟨outcome, houtcome, rfl⟩ := h.exists_outcome
  refine ⟨outcome a, houtcome a ha, fun x => ?_⟩
  rw [settledReport, Report.addresses_build, List.mem_map]
  simp only [AddressReport.of_inj, Check.mem_distinct]
  constructor
  · rintro ⟨b, -, rfl, rfl⟩
    rfl
  · rintro rfl
    exact ⟨a, ha, rfl, rfl⟩

/-- What is reported of a listed address in any spelling. -/
theorem RunReturns.exists_outcome (h : c.RunReturns result p check (.ok report)) {text : String}
    (htext : text ∈ p.listed check) :
    ∃ a o, Input.address text = .ok a ∧ (∀ x, .of a x ∈ report.addresses ↔ x = o) ∧
      (o = .classified .trusted ↔ p.Exempts a) := by
  cases h with
  | checked hscope hreturns =>
    have hread : text ∈ p.readBy check := by
      cases check <;>
        exact List.mem_cons_of_mem _ (List.mem_cons_of_mem _ (List.mem_append_right _ htext))
    obtain ⟨a, ha⟩ := Proposal.exists_scope_eq_ok_iff.1 ⟨_, hscope⟩ text hread
    obtain ⟨htrusted, haddresses⟩ := Proposal.scope_eq_ok_iff.1 hscope
    have hlisted := (Proposal.mem_addresses_iff haddresses).2 ⟨text, htext, ha⟩
    obtain ⟨o, ho, hreported⟩ := hreturns.exists_mem_addresses_iff hlisted
    refine ⟨a, o, ha, hreported, ?_⟩
    rw [← Proposal.contains_trustSet_iff htrusted, ← Check.settled?_eq_trusted_iff, ho,
      Option.some_inj]

/-- A check looks at no more of a proposal than its scope. -/
theorem RunReturns.of_scope_eq (hscope : q.scope check = p.scope check)
    {x : Except CheckError Report} (h : c.RunReturns result p check x) :
    c.RunReturns result q check x := by
  cases h with
  | malformed h => exact .malformed (hscope.trans h)
  | checked h hx => exact .checked (hscope.trans h) hx

theorem RunAllReturns.of_scope_eq {results : Check → Address → Fetched} {checks : List Check}
    (hscope : ∀ check, q.scope check = p.scope check) {x : Except CheckError (List Report)}
    (h : c.RunAllReturns results p checks x) : c.RunAllReturns results q checks x := by
  induction h with
  | nil => exact .nil
  | fail h => exact .fail (h.of_scope_eq (hscope _))
  | cons h _ ih => exact .cons (h.of_scope_eq (hscope _)) ih

theorem run_of_respells (h : p.Respells q) (c : Checker) (check : Check) :
    c.run check q = c.run check p := by
  rw [run, run, h.trustSet_eq, h.addresses_eq]

/-- Spelling is immaterial. Wherever an accepted proposal and a snapshot spell addresses otherwise,
both are still accepted and every check returns the same under every schedule; and in any run what
makes an address trusted is that it is exempt, however spelled. -/
theorem spelling_is_immaterial {document state : String} {p : Proposal} {s : Snapshot}
    (hp : Proposal.parse document = .ok p) (hs : Snapshot.parse state = .ok s) :
    (∃ members, Lists state members) ∧
    (∀ members, Lists state members → (members.map Prod.fst).Nodup →
      ∀ respelled, Resembles Input.Respelled document respelled →
      ∀ rekeyed others, Lists rekeyed others → Snapshot.Rekeyed members others →
        ∃ q, Proposal.parse respelled = .ok q ∧ Snapshot.parse rekeyed = .ok s ∧
          ∀ c : Checker, (∀ check, c.run check q = c.run check p) ∧ c.runAll q = c.runAll p ∧
            (∀ result check x, c.RunReturns result q check x ↔ c.RunReturns result p check x) ∧
            ∀ results x,
              c.RunAllReturns results q Check.all x ↔ c.RunAllReturns results p Check.all x) ∧
    ∀ (c : Checker) (r : Proposal) result check report, c.RunReturns result r check (.ok report) →
      ∀ text ∈ r.listed check, ∃ a o, Input.address text = .ok a ∧
        (∀ x, .of a x ∈ report.addresses ↔ x = o) ∧
        (o = .classified .trusted ↔ r.Exempts a) := by
  refine ⟨Snapshot.exists_lists_of_parse hs, ?_,
    fun c r result check report h text htext => h.exists_outcome htext⟩
  intro members hlist hnames respelled hrespelled rekeyed others hothers hrekeyed
  obtain ⟨q, hq, h⟩ := Proposal.follows_parse hrespelled p hp
  refine ⟨q, hq, Snapshot.parse_of_rekeyed hlist hnames hs hothers hrekeyed,
    fun c => ⟨run_of_respells h c, ?_, ?_, ?_⟩⟩
  · rw [runAll_eq, runAll_eq, run_of_respells h, run_of_respells h]
  · exact fun result check x =>
      ⟨.of_scope_eq (h.scope_eq check).symm, .of_scope_eq (h.scope_eq check)⟩
  · exact fun results x =>
      ⟨.of_scope_eq fun check => (h.scope_eq check).symm, .of_scope_eq h.scope_eq⟩

/-- The tree of a proposal whose second target is another account. -/
def proposalTree (governor target : String) : Reading :=
  .object <| .member (some "daoName") (.text (some "sample")) <|
    .member (some "governorAddress") (.text (some governor)) <|
    .member (some "timelockAddress") (.text (some "0x2222222222222222222222222222222222222222")) <|
    .member (some "targets") (.array (.item (.text (some target))
      (.item (.text (some "0x1111111111111111111111111111111111111111")) .closed))) .closed

/-- The governor is a target, in another spelling. -/
def spelled : String :=
  "\x7b\"daoName\":\"sample\",\"governorAddress\":\"0xabababababababababababababababababababab\",
   \"timelockAddress\":\"0x2222222222222222222222222222222222222222\",
   \"targets\":[\"ABABABABABABABABABABABABABABABABABABABAB\",
   \"0x1111111111111111111111111111111111111111\"]\x7d"

/-- Both spellings are changed. -/
def respelled : String :=
  "\x7b\"daoName\":\"sample\",\"governorAddress\":\"0XABABABABABABABABABABABABABABABABABABABAB\",
   \"timelockAddress\":\"0x2222222222222222222222222222222222222222\",
   \"targets\":[\" abababababababababababababababababababab\",
   \"0x1111111111111111111111111111111111111111\"]\x7d"

set_option maxRecDepth 4000 in
theorem resembles_respelled : Resembles Input.Respelled spelled respelled :=
  .of_read
    (proposalTree "0xabababababababababababababababababababab"
      "ABABABABABABABABABABABABABABABABABABABAB")
    (proposalTree "0XABABABABABABABABABABABABABABABABABABABAB"
      " abababababababababababababababababababab") rfl rfl <|
    .object <| .member _ (.text (.inl rfl)) <|
      .member _ (.text (.inr ⟨.uniform 0xab, by decide +kernel, by decide +kernel⟩)) <|
      .member _ (.text (.inl rfl)) <|
      .member _ (.array (.item (.text (.inr ⟨.uniform 0xab, by decide +kernel, by decide +kernel⟩))
        (.item (.text (.inl rfl)) .closed))) .closed

def spelledProposal : Proposal where
  daoName := "sample"
  governor := "0xabababababababababababababababababababab"
  timelock := "0x2222222222222222222222222222222222222222"
  targets :=
    ["ABABABABABABABABABABABABABABABABABABABAB", "0x1111111111111111111111111111111111111111"]

set_option maxRecDepth 4000 in
theorem parse_spelled : Proposal.parse spelled = .ok spelledProposal := by
  have hread : Json.parse Proposal.decode spelled = .ok spelledProposal :=
    parse_of_read (read_ofList (r := proposalTree "0xabababababababababababababababababababab"
      "ABABABABABABABABABABABABABABABABABABABAB") rfl) rfl
  rw [Proposal.parse, hread]
  decide

/-- The second target, and the same in another spelling. -/
def stored : String := "\x7b\"0x1111111111111111111111111111111111111111\":\x7b\"nonce\":1\x7d\x7d"

def restored : String := "\x7b\"1111111111111111111111111111111111111111 \":\x7b\"nonce\":1\x7d\x7d"

set_option maxRecDepth 4000 in
theorem lists_stored :
    Lists stored [("0x1111111111111111111111111111111111111111", Snapshot.withNonce 1)] :=
  .of_read rfl

set_option maxRecDepth 4000 in
theorem lists_restored :
    Lists restored [("1111111111111111111111111111111111111111 ", Snapshot.withNonce 1)] :=
  .of_read rfl

/-- Written as it was or otherwise, the proposal is checked alike, and the governor among its
targets is trusted. -/
theorem respelled_governor_is_trusted :
    Proposal.parse spelled = .ok spelledProposal ∧ ∃ s q, Snapshot.parse stored = .ok s ∧
      Proposal.parse respelled = .ok q ∧ Snapshot.parse restored = .ok s ∧
      ∃ checked, sequential.run .targets q = .ok checked ∧
        .of (.uniform 0xab) (.classified .trusted) ∈ checked.report.addresses := by
  have haddress : Input.address "0x1111111111111111111111111111111111111111" =
      .ok (.uniform 0x11) := by decide +kernel
  have hloaded : ∃ s, Snapshot.parse stored = .ok s :=
    (Snapshot.exists_parse_iff lists_stored (List.nodup_singleton _)
      (List.forall_mem_singleton.2 ⟨_, rfl⟩)).2 (Snapshot.storable_withNonce haddress 1)
  obtain ⟨s, hs⟩ := hloaded
  obtain ⟨-, hrespelled, hreported⟩ := spelling_is_immaterial parse_spelled hs
  have hrekeyed :
      Snapshot.Rekeyed [("0x1111111111111111111111111111111111111111", Snapshot.withNonce 1)]
        [("1111111111111111111111111111111111111111 ", Snapshot.withNonce 1)] :=
    .cons ⟨.inr ⟨_, haddress, by decide +kernel⟩, rfl⟩ .nil
  obtain ⟨q, hq, hrestored, hsame⟩ :=
    hrespelled _ lists_stored (List.nodup_singleton _) respelled resembles_respelled
      restored _ lists_restored hrekeyed
  have hrun : ∃ checked, sequential.run .targets spelledProposal = .ok checked :=
    (exists_run_eq_ok_iff (by decide) (Snapshot.calm_source _)).2
      (Proposal.exists_scope_eq_ok_of_valid (Proposal.parse_validates parse_spelled))
  obtain ⟨checked, hchecked⟩ := hrun
  refine ⟨parse_spelled, s, q, hs, hq, hrestored, checked,
    ((hsame sequential).1 .targets).trans hchecked, ?_⟩
  have hreturns := runReturns_run sequential spelledProposal .targets
  rw [hchecked] at hreturns
  obtain ⟨a, o, ha, ho, htrusted⟩ :=
    hreported sequential spelledProposal _ .targets checked.report hreturns
      "ABABABABABABABABABABABABABABABABABABABAB" List.mem_cons_self
  have hgovernor : Input.address "ABABABABABABABABABABABABABABABABABABABAB" =
      .ok (.uniform 0xab) := by decide +kernel
  obtain rfl := Except.ok.inj (hgovernor.symm.trans ha)
  rw [ho]
  exact (htrusted.2 (by decide)).symm

end Checker
end ProposalVetting
