import ProposalVetting.Proofs.Proposal.Reading
import ProposalVetting.Proofs.TrustSet

namespace ProposalVetting.Proposal
open Failure

/-- Some text of the list reads as the address. -/
def Reads (texts : List String) (a : Address) : Prop := ∃ text ∈ texts, Input.address text = .ok a

instance (texts : List String) (a : Address) : Decidable (Reads texts a) :=
  inferInstanceAs (Decidable (∃ text ∈ texts, Input.address text = .ok a))

/-- The address is the governor's, the timelock's, or one of those that are trusted besides. -/
def Exempts (p : Proposal) (a : Address) : Prop := Reads (p.governor :: p.timelock :: p.trusted) a

instance (p : Proposal) (a : Address) : Decidable (p.Exempts a) :=
  inferInstanceAs (Decidable (Reads _ a))

variable {p : Proposal} {field : String} {texts : List String} {addresses : List Address}
  {trusted : TrustSet} {a : Address}

theorem mem_addressesIn (h : addressesIn field texts = .ok addresses) :
    a ∈ addresses ↔ Reads texts a := by
  rw [mem_iff_of_mapM_eq_ok h]
  simp only [addressIn_eq_ok_iff, Reads]

theorem contains_trustSet_iff (h : p.trustSet = .ok trusted) :
    trusted.contains a = true ↔ p.Exempts a := by
  rw [trustSet_eq, map_eq_ok_iff] at h
  obtain ⟨addresses, hread, rfl⟩ := h
  rw [TrustSet.contains_ofList, mem_iff_of_mapM_eq_ok hread]
  simp only [addressIn_eq_ok_iff, exempt, Exempts, Reads, List.exists_mem_cons_iff, List.mem_map,
    exists_exists_and_eq_and]

end ProposalVetting.Proposal
