import ProposalVetting.Proofs.Input.Address
import ProposalVetting.Proofs.Input.Code

namespace ProposalVetting.Input
open Text

variable {text : String} {t : List Char} {a : Address} {bytes : List UInt8}

/-- No filler stands between the first character that is not blank and the last one. -/
def Unbroken (text : String) : Prop := ∃ core, Trimmed text.toList core ∧ ∀ c ∈ core, c ∉ fillers

/-- Without fillers there is nothing to remove that is not removed from the text of an address. -/
theorem Unbroken.codeBody_iff (h : Unbroken text) : CodeBody text t ↔ AddressBody text t := by
  obtain ⟨core, hcore, hfillers⟩ := h
  have hfilter : core.filter (· ∉ fillers) = core :=
    List.filter_eq_self.2 fun c hc => decide_eq_true (hfillers c hc)
  simp only [CodeBody, AddressBody, trimmed_iff, exists_eq_left, ← trimmed_iff.1 hcore, hfilter]

theorem unbroken_of_isDigit (hbody : AddressBody text t) (h : ∀ c ∈ t, Hex.isDigit c = true) :
    Unbroken text := by
  obtain ⟨core, hcore, hunmarked⟩ := hbody
  obtain ⟨mark, hmark, rfl⟩ := hunmarked.exists_mark
  refine ⟨mark ++ t, hcore, fun c hc => ?_⟩
  rcases List.mem_append.1 hc with hc | hc
  · have hmarks : ∀ mark ∈ marks, ∀ c ∈ mark, c ∉ fillers := by simp [marks, fillers]
    exact hmarks mark hmark c hc
  · exact not_mem_fillers_of_isDigit (h c hc)

theorem unbroken_of_address (h : address text = .ok a) : Unbroken text := by
  have hbody : AddressBody text (stripMark (trim text.toList)) := addressBody_iff.2 rfl
  exact unbroken_of_isDigit hbody ((address_eq_ok_iff hbody).1 h).isDigit

theorem Unbroken.address_iff_code (h : Unbroken text) :
    address text = .ok a ↔ code text = .ok a.bytes := by
  have hbody : AddressBody text (stripMark (trim text.toList)) := addressBody_iff.2 rfl
  rw [address_eq_ok_iff hbody, code_eq_ok_iff (h.codeBody_iff.2 hbody)]

/-- The text of an address is code of the same bytes, and code of twenty bytes is the text of an
address unless fillers break it up. Nothing is read in two ways. -/
theorem address_agrees_with_code (text : String) :
    (∀ a, address text = .ok a → code text = .ok a.bytes) ∧
    (∀ bytes, code text = .ok bytes → bytes.length = 20 →
      ((∃ a, address text = .ok a ∧ a.bytes = bytes) ↔ Unbroken text)) ∧
    (∀ a bytes, address text = .ok a → code text = .ok bytes → a.bytes = bytes) := by
  have hcode : ∀ {a}, address text = .ok a → code text = .ok a.bytes := fun h =>
    (unbroken_of_address h).address_iff_code.1 h
  refine ⟨fun a => hcode, fun bytes h hlength => ⟨?_, fun hunbroken => ?_⟩, fun a bytes h h' => ?_⟩
  · rintro ⟨a, ha, -⟩
    exact unbroken_of_address ha
  · exact ⟨⟨bytes, hlength⟩, hunbroken.address_iff_code.2 h, rfl⟩
  · exact Except.ok.inj ((hcode h).symm.trans h')

/-- Behind a mark that a blank breaks up, the digits of an address are code but no address. -/
theorem broken_mark_is_no_address :
    ∃ a : Address, address (String.ofList ('0' :: 'x' :: lowerDigits)) = .ok a ∧
      code (String.ofList ('0' :: 'x' :: lowerDigits)) = .ok a.bytes ∧
      code (String.ofList ('0' :: ' ' :: 'x' :: lowerDigits)) = .ok a.bytes ∧ a.bytes.length = 20 ∧
      ¬ ∃ b, address (String.ofList ('0' :: ' ' :: 'x' :: lowerDigits)) = .ok b ∧
        b.bytes = a.bytes := by
  let a : Address := ⟨List.replicate 20 0xab, List.length_replicate⟩
  have hspells : Hex.Spells lowerDigits a.bytes := Hex.spells_iff_map_toLower.2 (by decide)
  have haddress := (address_agrees_with_code (String.ofList ('0' :: 'x' :: lowerDigits))).1
  have hread : address (String.ofList ('0' :: 'x' :: lowerDigits)) = .ok a :=
    address_ofList hspells
  have hcode : code (String.ofList ('0' :: ' ' :: 'x' :: lowerDigits)) = .ok a.bytes := by
    have hmark : ['0', 'x'] ∈ marks := by decide
    refine code_of_spells (codeBody_of_filter hmark hspells.isDigit ?_) hspells
    rw [String.toList_ofList]
    decide
  have hbroken : ¬ Unbroken (String.ofList ('0' :: ' ' :: 'x' :: lowerDigits)) := by
    rintro ⟨core, hcore, hfillers⟩
    have hblank : ' ' ∈ trim ('0' :: ' ' :: 'x' :: lowerDigits) := by decide
    rw [trimmed_iff, String.toList_ofList] at hcore
    exact hfillers ' ' (hcore ▸ hblank) (by decide)
  refine ⟨a, hread, haddress a hread, hcode, a.length_bytes, fun hb => hbroken ?_⟩
  exact ((address_agrees_with_code _).2.1 a.bytes hcode a.length_bytes).1 hb

end ProposalVetting.Input
