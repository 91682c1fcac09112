import ProposalVetting.Account
import ProposalVetting.Proofs.TrustSet

namespace ProposalVetting

variable {s t : TrustSet} {a b : Address}

theorem classify_congr (h : s.contains a = t.contains a) (facts : Facts) :
    classify s a facts = classify t a facts := by
  rw [classify, classify, h]

theorem classify_eq_trusted_iff {f : Facts} : classify s a f = .trusted ↔ s.contains a = true := by
  unfold classify
  split
  · next h => simp [h]
  · next h =>
    refine iff_of_false ?_ h
    split
    · exact nofun
    · split <;> exact nofun
    · cases Bytecode.verdict _ <;> exact nofun

/-- To trust one more address changes the category of its account, and of no other. -/
theorem classify_insert (s : TrustSet) (b a : Address) (facts : Facts) :
    classify (s.insert b).1 a facts = if a = b then .trusted else classify s a facts := by
  split
  · next h => exact classify_eq_trusted_iff.2 (TrustSet.contains_insert.2 (.inr h.symm))
  · next h =>
    apply classify_congr
    apply Bool.eq_iff_iff.2
    rw [TrustSet.contains_insert, or_iff_left (Ne.symm h)]

end ProposalVetting
