import ProposalVetting.Proofs.Address.Map
import ProposalVetting.TrustSet

namespace ProposalVetting.TrustSet

variable {s : TrustSet} {a b : Address} {addresses : List Address}

theorem contains_empty : TrustSet.empty.contains b = false := rfl

theorem contains_insert : (s.insert a).1.contains b = true ↔ s.contains b = true ∨ a = b := by
  unfold insert
  split
  · next ha =>
    constructor
    · exact .inl
    · rintro (hb | rfl)
      · exact hb
      · exact ha
  · simp only [contains, AddressMap.contains, AddressMap.get?_insert]
    by_cases hab : a = b <;> simp [hab]

theorem contains_extend :
    (s.extend addresses).contains b = true ↔ s.contains b = true ∨ b ∈ addresses := by
  unfold extend
  induction addresses generalizing s with
  | nil => simp
  | cons a rest ih =>
    rw [List.foldl_cons, ih, contains_insert, List.mem_cons, or_assoc, eq_comm (a := a)]

theorem contains_ofList : (ofList addresses).contains b = true ↔ b ∈ addresses := by
  rw [ofList, contains_extend, contains_empty]
  simp

end ProposalVetting.TrustSet
