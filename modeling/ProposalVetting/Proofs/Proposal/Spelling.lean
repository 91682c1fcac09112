import ProposalVetting.Proofs.Check.Sequence
import ProposalVetting.Proofs.Json.Likeness

namespace ProposalVetting
open Json Failure

/-- The same text, or two that are read as one address. -/
def Input.Respelled (s t : String) : Prop :=
  s = t ∨ ∃ a, Input.address s = .ok a ∧ Input.address t = .ok a

theorem Input.Respelled.address_eq {s t : String} (h : Respelled s t) :
    Input.address t = Input.address s := by
  rcases h with rfl | ⟨a, hs, ht⟩
  · rfl
  · rw [hs, ht]

namespace Proposal
open Input

/-- In the second proposal texts may stand in another spelling. -/
structure Respells (p q : Proposal) : Prop where
  governor : Respelled p.governor q.governor
  timelock : Respelled p.timelock q.timelock
  targets : List.Forall₂ Respelled p.targets q.targets
  touched : List.Forall₂ Respelled p.touched q.touched
  trusted : List.Forall₂ Respelled p.trusted q.trusted

structure Draft.Respells (d d' : Draft) : Prop where
  daoName : Option.Rel Respelled d.daoName d'.daoName
  governor : Option.Rel Respelled d.governor d'.governor
  timelock : Option.Rel Respelled d.timelock d'.timelock
  proposalId : Option.Rel (Option.Rel Respelled) d.proposalId d'.proposalId
  targets : Option.Rel (List.Forall₂ Respelled) d.targets d'.targets
  touched : Option.Rel (List.Forall₂ Respelled) d.touched d'.touched
  trusted : Option.Rel (List.Forall₂ Respelled) d.trusted d'.trusted

open Decode in
theorem Draft.Respells.read {name : String} {d d' : Draft} (h : d.Respells d') {r r' : Reading}
    (hr : r.Alike Respelled r') :
    Follows Draft.Respells (Draft.read name d r) (Draft.read name d' r') := by
  have htexts : Respects Respelled (List.Forall₂ Respelled) (list text) :=
    respects_list respects_text
  unfold Draft.read
  split
  · exact (respects_once h.daoName respects_text hr).bind fun _ _ hx => .ok { h with daoName := hx }
  · exact (respects_once h.governor respects_text hr).bind fun _ _ hx =>
      .ok { h with governor := hx }
  · exact (respects_once h.timelock respects_text hr).bind fun _ _ hx =>
      .ok { h with timelock := hx }
  · exact (respects_once h.proposalId (respects_optional respects_text) hr).bind fun _ _ hx =>
      .ok { h with proposalId := hx }
  · exact (respects_once h.targets htexts hr).bind fun _ _ hx => .ok { h with targets := hx }
  · exact (respects_once h.touched htexts hr).bind fun _ _ hx => .ok { h with touched := hx }
  · exact (respects_once h.trusted htexts hr).bind fun _ _ hx => .ok { h with trusted := hx }
  · exact .ok h

/-- A list that is not written is empty. -/
theorem forall₂_getD {x y : Option (List String)} (h : Option.Rel (List.Forall₂ Respelled) x y) :
    List.Forall₂ Respelled (x.getD []) (y.getD []) := by
  cases h with
  | none => exact .nil
  | some h => exact h

open Decode in
theorem Draft.Respells.finish {d d' : Draft} (h : d.Respells d') :
    Follows Proposal.Respells d.finish d'.finish :=
  (follows_required h.daoName).bind fun _ _ _ =>
  (follows_required h.governor).bind fun _ _ hgovernor =>
  (follows_required h.timelock).bind fun _ _ htimelock =>
  .ok ⟨hgovernor, htimelock, forall₂_getD h.targets, forall₂_getD h.touched, forall₂_getD h.trusted⟩

theorem respects_decode : Respects Respelled Respells decode :=
  Layout.respects_decode (l := layout) (S := Draft.Respells) (fun h _ _ hr => h.read hr)
    ⟨.none, .none, .none, .none, .none, .none, .none⟩ fun h => h.finish

variable {p q : Proposal} {field : String} {texts others : List String}

theorem addressIn_eq {s t : String} (h : Respelled s t) :
    addressIn field t = addressIn field s := by
  rw [addressIn, addressIn, h.address_eq]

theorem addressesIn_eq (h : List.Forall₂ Respelled texts others) :
    addressesIn field others = addressesIn field texts := by
  induction h with
  | nil => rfl
  | cons hs _ ih =>
    rw [addressesIn, addressesIn, List.mapM_cons, List.mapM_cons, addressIn_eq hs, ← addressesIn,
      ih, addressesIn]

theorem Respells.trustSet_eq (h : p.Respells q) : q.trustSet = p.trustSet := by
  rw [trustSet, trustSet, governorAddress, governorAddress, timelockAddress, timelockAddress,
    addressIn_eq h.governor, addressIn_eq h.timelock, addressesIn_eq h.trusted]

theorem Respells.addresses_eq (h : p.Respells q) (check : Check) :
    check.addresses q = check.addresses p := by
  cases check with
  | targets => exact addressesIn_eq h.targets
  | touched => exact addressesIn_eq h.touched

theorem Respells.validate_eq (h : p.Respells q) : q.validate = p.validate := by
  have htargets : q.targetAddresses = p.targetAddresses := h.addresses_eq .targets
  have htouched : q.touchedAddresses = p.touchedAddresses := h.addresses_eq .touched
  rw [validate, validate, governorAddress, governorAddress, timelockAddress, timelockAddress,
    addressIn_eq h.governor, addressIn_eq h.timelock, h.trustSet_eq, htargets, htouched]

theorem Respells.scope_eq (h : p.Respells q) (check : Check) : q.scope check = p.scope check := by
  rw [scope, scope, h.trustSet_eq, h.addresses_eq]

theorem follows_parse {document other : String} (h : Resembles Respelled document other) :
    Follows Respells (parse document) (parse other) := by
  intro p hp
  obtain ⟨p', hread, hp⟩ := bind_eq_ok_iff.1 hp
  obtain ⟨⟨⟩, hvalid, hp⟩ := bind_eq_ok_iff.1 hp
  cases hp
  obtain ⟨q, hq, hrespells⟩ := Json.follows_parse respects_decode h _ (mapError_eq_ok_iff.1 hread)
  refine ⟨q, ?_, hrespells⟩
  rw [parse, hq, Except.mapError, ok_bind, hrespells.validate_eq, hvalid]
  rfl

end Proposal
end ProposalVetting
