import ProposalVetting.Proofs.Address.Checksum

namespace ProposalVetting.Input
open Text Failure

variable {text : String} {t mark digits : List Char} {bytes : List UInt8} {a : Address}
  {r : Except InputError Address}

/-- What is left of the text of an address without blank space around it, then without a mark. -/
def AddressBody (text : String) (t : List Char) : Prop :=
  ∃ core, Trimmed text.toList core ∧ Unmarked core t

theorem addressBody_iff : AddressBody text t ↔ t = stripMark (trim text.toList) := by
  simp only [AddressBody, trimmed_iff, unmarked_iff, exists_eq_left]

theorem addressBody_ofList (hmark : mark ∈ marks) (h : ∀ c ∈ digits, Hex.isDigit c = true) :
    AddressBody (String.ofList (mark ++ digits)) digits := by
  rw [addressBody_iff, String.toList_ofList,
    trim_of_not_isBlank (not_isBlank_of_mem_append hmark h), stripMark_append hmark h]

/-- What is left of a text is the address it denotes. Otherwise its bytes are odd in number, or have
a first one that is no digit, or denote bytes that are not twenty. -/
inductive AddressRead (text : String) (t : List Char) : Except InputError Address → Prop where
  | digits {a : Address} (h : Hex.Spells t a.bytes) : AddressRead text t (.ok a)
  | oddLength (h : (utf8 t).length % 2 = 1) : AddressRead text t (.error .oddLength)
  | foreign {before : List UInt8} {b : UInt8} (heven : (utf8 t).length % 2 = 0)
      (h : FirstForeign (fun b => Hex.isDigit (byteChar b)) (utf8 t) before b) :
      AddressRead text t (.error (.invalidCharacter (byteChar b) before.length))
  | addressLength {bytes : List UInt8} (h : Hex.Spells t bytes) (hlength : bytes.length ≠ 20) :
      AddressRead text t (.error (.addressLength text bytes.length))

theorem address_of_error {e : InputError} (hbody : AddressBody text t)
    (h : hexBytes (utf8 t) = .error e) :
    address text = .error e := by
  rw [address, ← addressBody_iff.1 hbody, h]
  rfl

/-- An address is made of twenty bytes and of no other number. -/
theorem address_of_hexBytes (hbody : AddressBody text t) (h : hexBytes (utf8 t) = .ok bytes) :
    address text =
      if h : bytes.length = 20 then .ok ⟨bytes, h⟩
      else .error (.addressLength text bytes.length) := by
  rw [address, ← addressBody_iff.1 hbody, h, ok_bind]
  by_cases hlength : bytes.length = 20
  · rw [dif_pos hlength, Address.ofBytes?, dif_pos hlength]
  · rw [dif_neg hlength, Address.ofBytes?, dif_neg hlength]

theorem AddressRead.address_eq (hbody : AddressBody text t) (h : AddressRead text t r) :
    address text = r := by
  cases h with
  | @digits a h =>
    rw [address_of_hexBytes hbody (hexBytes_utf8 h), dif_pos a.length_bytes]
  | oddLength h => exact address_of_error hbody (hexBytes_eq_iff.2 (.oddLength h))
  | foreign heven h => exact address_of_error hbody (hexBytes_eq_iff.2 (.foreign heven h))
  | addressLength h hlength => rw [address_of_hexBytes hbody (hexBytes_utf8 h), dif_neg hlength]

/-- Whatever is left of a text, one of the rules applies. -/
theorem exists_addressRead (text : String) (t : List Char) : ∃ r, AddressRead text t r := by
  obtain ⟨r, hr⟩ := exists_decoded (utf8 t)
  cases hr with
  | oddLength h => exact ⟨_, .oddLength h⟩
  | foreign heven h => exact ⟨_, .foreign heven h⟩
  | @bytes bytes h =>
    have hbytes := spells_utf8_iff.1 h
    by_cases hlength : bytes.length = 20
    · exact ⟨.ok ⟨bytes, hlength⟩, .digits hbytes⟩
    · exact ⟨_, .addressLength hbytes hlength⟩

theorem address_eq_iff (hbody : AddressBody text t) : address text = r ↔ AddressRead text t r :=
  eq_iff_of_rules (fun _ => AddressRead.address_eq hbody) (exists_addressRead text t)

theorem address_eq_ok_iff (hbody : AddressBody text t) :
    address text = .ok a ↔ Hex.Spells t a.bytes := by
  rw [address_eq_iff hbody]
  constructor
  · rintro ⟨h⟩
    exact h
  · exact .digits

theorem exists_address_eq_ok_iff (hbody : AddressBody text t) :
    (∃ a, address text = .ok a) ↔ t.length = 40 ∧ ∀ c ∈ t, Hex.isDigit c = true := by
  simp only [address_eq_ok_iff hbody]
  constructor
  · rintro ⟨a, h⟩
    exact ⟨by rw [h.length_eq, a.length_bytes], h.isDigit⟩
  · rintro ⟨hlength, hdigits⟩
    obtain ⟨bytes, hbytes⟩ := Hex.exists_spells_iff.2 ⟨hdigits, by rw [hlength]⟩
    have htwenty : bytes.length = 20 := by
      have hdouble := hbytes.length_eq
      omega
    exact ⟨⟨bytes, htwenty⟩, hbytes⟩

theorem address_recased (hmark : mark ∈ marks) (h : digits.map Char.toLower = Hex.encode a.bytes) :
    address (String.ofList (mark ++ digits)) = .ok a := by
  have hspells := Hex.spells_iff_map_toLower.2 h
  exact (address_eq_ok_iff (addressBody_ofList hmark hspells.isDigit)).2 hspells

/-- Two texts are read as one address when what is left of them differs in case at most. -/
theorem address_inj_iff {s s' : String} {t t' : List Char} {a a' : Address}
    (hbody : AddressBody s t) (hbody' : AddressBody s' t') (h : address s = .ok a)
    (h' : address s' = .ok a') :
    a = a' ↔ t.map Char.toLower = t'.map Char.toLower := by
  have hlower := Hex.spells_iff_map_toLower.1 ((address_eq_ok_iff hbody).1 h)
  have hspells' := (address_eq_ok_iff hbody').1 h'
  have hlower' := Hex.spells_iff_map_toLower.1 hspells'
  constructor
  · rintro rfl
    rw [hlower, hlower']
  · intro heq
    have hspells : Hex.Spells t' a.bytes := Hex.spells_iff_map_toLower.2 (heq ▸ hlower)
    have hread := (address_eq_ok_iff hbody').2 hspells
    exact Except.ok.inj (hread.symm.trans h')

/-- Address text is accepted exactly when forty digits are left of it, and refused for the first
thing that is wrong with its bytes; only twenty bytes make an address. An address is read back from
its digits in any case, with or without a mark, and from its checksum form, so that no two addresses
share one; texts of one address differ in case at most. -/
theorem address_text_corresponds :
    (∀ text, ∃ t, (∀ u, AddressBody text u ↔ u = t) ∧
      (∀ r, address text = r ↔ AddressRead text t r) ∧
      ((∃ a, address text = .ok a) ↔ t.length = 40 ∧ ∀ c ∈ t, c ∈ Hex.alphabet) ∧
      (∀ bytes, hexBytes (utf8 t) = .ok bytes →
        address text =
          if h : bytes.length = 20 then .ok ⟨bytes, h⟩
          else .error (.addressLength text bytes.length))) ∧
    (∀ a mark digits, mark ∈ marks → digits.map Char.toLower = Hex.encode (Address.bytes a) →
      address (String.ofList (mark ++ digits)) = .ok a) ∧
    (∀ a, address (Address.checksum a) = .ok a ∧
      ∃ digits, a.checksum = String.ofList (['0', 'x'] ++ digits) ∧
        digits.map Char.toLower = Hex.encode a.bytes) ∧
    Function.Injective Address.checksum ∧
    (∀ s s' t t' a a', AddressBody s t → AddressBody s' t' → address s = .ok a →
      address s' = .ok a' → (a = a' ↔ t.map Char.toLower = t'.map Char.toLower)) := by
  refine ⟨fun text => ⟨_, fun u => addressBody_iff, ?_⟩, fun a mark digits => address_recased,
    fun a => ⟨a.address_checksum, ?_⟩, fun a b => Address.checksum_inj.1,
    fun s s' t t' a a' => address_inj_iff⟩
  · have hbody : AddressBody text (stripMark (trim text.toList)) := addressBody_iff.2 rfl
    refine ⟨fun r => address_eq_iff hbody, ?_, fun bytes => address_of_hexBytes hbody⟩
    simp only [exists_address_eq_ok_iff hbody, Hex.isDigit_iff_mem]
  · obtain ⟨digits, hchecksum, hdigits⟩ := a.exists_digits_checksum
    exact ⟨digits, hchecksum, Hex.spells_iff_map_toLower.1 hdigits⟩

def mixedDigits : List Char := (List.replicate 20 ['a', 'B']).flatten

def lowerDigits : List Char := (List.replicate 20 ['a', 'b']).flatten

/-- Digits in mixed case behind a mark, and in lower case without one, are read as the same twenty
bytes. -/
theorem mixedDigits_read_as_lowerDigits :
    ∃ a : Address, a.bytes = List.replicate 20 0xab ∧ ['0', 'X'] ∈ marks ∧ [] ∈ marks ∧
      mixedDigits.map Char.toLower = Hex.encode a.bytes ∧
      lowerDigits.map Char.toLower = Hex.encode a.bytes ∧
      hexBytes (utf8 mixedDigits) = .ok a.bytes ∧
      AddressBody (String.ofList (['0', 'X'] ++ mixedDigits)) mixedDigits ∧
      AddressBody (String.ofList ([] ++ lowerDigits)) lowerDigits ∧
      address (String.ofList (['0', 'X'] ++ mixedDigits)) = .ok a ∧
      address (String.ofList ([] ++ lowerDigits)) = .ok a ∧
      mixedDigits.map Char.toLower = lowerDigits.map Char.toLower := by
  obtain ⟨hread, hrecased, -, -, hsame⟩ := address_text_corresponds
  let a : Address := ⟨List.replicate 20 0xab, List.length_replicate⟩
  have hmark : ['0', 'X'] ∈ marks := by decide
  have hbare : [] ∈ marks := List.mem_cons_self
  have hmixed : mixedDigits.map Char.toLower = Hex.encode a.bytes := by decide
  have hlower : lowerDigits.map Char.toLower = Hex.encode a.bytes := by decide
  have hspells := Hex.spells_iff_map_toLower.2 hmixed
  have hbody := addressBody_ofList hmark hspells.isDigit
  have hbody' := addressBody_ofList hbare (Hex.spells_iff_map_toLower.2 hlower).isDigit
  have hmarked : address (String.ofList (['0', 'X'] ++ mixedDigits)) = .ok a := by
    obtain ⟨t, ht, -, -, hbytes⟩ := hread (String.ofList (['0', 'X'] ++ mixedDigits))
    rw [hbytes a.bytes ((ht _).1 hbody ▸ hexBytes_utf8 hspells), dif_pos a.length_bytes]
  have hplain := hrecased a [] lowerDigits hbare hlower
  exact ⟨a, rfl, hmark, hbare, hmixed, hlower, hexBytes_utf8 hspells, hbody, hbody',
    hmarked, hplain, (hsame _ _ _ _ _ _ hbody hbody' hmarked hplain).1 rfl⟩

end ProposalVetting.Input
