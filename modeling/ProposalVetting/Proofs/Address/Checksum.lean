import ProposalVetting.Proofs.Failure
import ProposalVetting.Proofs.Input.Digits

namespace ProposalVetting
open Text

namespace Hash.Keccak

variable {s : State}

theorem length_tabulate (f : Nat → Nat → UInt64) : (tabulate f).length = 25 := by
  rw [tabulate, List.length_map, List.length_range]

theorem length_iota (constant : UInt64) (s : State) : (iota constant s).length = s.length := by
  cases s <;> rfl

theorem length_permute (h : s.length = 25) : (permute s).length = 25 := by
  unfold permute
  generalize roundConstants = constants
  induction constants generalizing s with
  | nil => exact h
  | cons constant rest ih =>
    apply ih
    rw [length_iota]
    exact length_tabulate _

theorem length_words (n : Nat) (bytes : List UInt8) : (words n bytes).length = n := by
  induction n generalizing bytes with
  | zero => rfl
  | succ n ih => rw [words, List.length_cons, ih]

theorem length_absorb (h : s.length = 25) (n : Nat) (bytes : List UInt8) :
    (absorb n s bytes).length = 25 := by
  induction n generalizing s bytes with
  | zero => exact h
  | succ n ih =>
    refine ih (length_permute ?_) _
    rw [List.length_zipWith, h, length_words, Nat.min_self]

theorem length_hash (message : List UInt8) : (hash message).length = 32 := by
  have hword (w : UInt64) : (wordBytes w).length = 8 := rfl
  have hstate :=
    length_absorb (s := List.replicate 25 0) List.length_replicate ((pad message).length / rate)
      (pad message)
  unfold hash
  dsimp only
  generalize absorb _ _ _ = s at hstate ⊢
  simp [List.length_flatMap, hword, hstate]

end Hash.Keccak

namespace Input

variable {cs : List Char}

/-- Digits behind a mark, in any case. -/
theorem address_ofList {a : Address} (h : Hex.Spells cs a.bytes) :
    address (String.ofList ('0' :: 'x' :: cs)) = .ok a := by
  have hmark : ['0', 'x'] ∈ marks := by decide
  have hblank : ∀ c ∈ '0' :: 'x' :: cs, isBlank c = false :=
    not_isBlank_of_mem_append hmark h.isDigit
  have hbytes : Address.ofBytes? a.bytes = some a := dif_pos a.length_bytes
  rw [address, String.toList_ofList, trim_of_not_isBlank hblank, stripMark, hexBytes_utf8 h,
    Failure.ok_bind, hbytes]

end Input

namespace Address

theorem value?_checksumDigits {digits hash : List Char} (h : digits.length ≤ hash.length) :
    List.Forall₂ (fun c d => Hex.value? c = Hex.value? d) (checksumDigits digits hash) digits := by
  induction digits generalizing hash with
  | nil => exact .nil
  | cons c digits ih =>
    cases hash with
    | nil => simp at h
    | cons d hash =>
      refine .cons ?_ (ih (Nat.le_of_succ_le_succ h))
      dsimp only
      split
      · exact Hex.value?_toUpper c
      · rfl

/-- The checksum form is the digits in some case behind a mark. -/
theorem exists_digits_checksum (a : Address) :
    ∃ digits, a.checksum = String.ofList (['0', 'x'] ++ digits) ∧ Hex.Spells digits a.bytes := by
  have hhash : ∃ hash, (Hex.encode a.bytes).length ≤ hash.length ∧
      a.checksum = String.ofList (['0', 'x'] ++ checksumDigits (Hex.encode a.bytes) hash) := by
    refine ⟨_, ?_, rfl⟩
    rw [Hex.length_encode, Hex.length_encode, a.length_bytes, Hash.Keccak.length_hash]
    decide
  obtain ⟨hash, hlength, hchecksum⟩ := hhash
  refine ⟨_, hchecksum, ?_⟩
  rw [← Hex.decode_eq_some_iff, Hex.decode_congr (value?_checksumDigits hlength), Hex.decode_encode]

theorem address_checksum (a : Address) : Input.address a.checksum = .ok a := by
  obtain ⟨digits, hchecksum, hdigits⟩ := a.exists_digits_checksum
  rw [hchecksum]
  exact Input.address_ofList hdigits

theorem checksum_inj {a b : Address} : a.checksum = b.checksum ↔ a = b := by
  refine ⟨fun h => ?_, fun h => h ▸ rfl⟩
  have hread := a.address_checksum
  rw [h, b.address_checksum] at hread
  exact (Except.ok.inj hread).symm

end Address
end ProposalVetting
