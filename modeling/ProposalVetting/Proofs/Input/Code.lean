import ProposalVetting.Proofs.Failure
import ProposalVetting.Proofs.Input.Digits

namespace ProposalVetting.Input
open Text Failure

variable {text : String} {mark digits t : List Char} {c : Char} {bytes : List UInt8}
  {r : Except InputError (List UInt8)}

def fillers : List Char := ['\n', '\r', ' ', '\t']

/-- What is left of code text without blank space around it, then without fillers, then without a
mark. -/
def CodeBody (text : String) (t : List Char) : Prop :=
  ∃ core, Trimmed text.toList core ∧ Unmarked (core.filter (· ∉ fillers)) t

theorem not_isFiller_eq (c : Char) : (!isFiller c) = decide (c ∉ fillers) := by
  rw [Bool.eq_iff_iff]
  simp [isFiller, fillers, not_or, and_assoc]

theorem codeBody_iff :
    CodeBody text t ↔ t = stripMark ((trim text.toList).filter fun c => !isFiller c) := by
  simp only [CodeBody, trimmed_iff, unmarked_iff, not_isFiller_eq, exists_eq_left]

theorem not_mem_fillers_of_isDigit (h : Hex.isDigit c = true) : c ∉ fillers := by
  have hfillers : ∀ c ∈ fillers, ¬ Hex.isDigit c = true := by
    simp [fillers, Hex.isDigit, Hex.value?]
  exact fun hmem => hfillers c hmem h

/-- Digits with fillers anywhere among them, even within the mark. -/
theorem codeBody_of_filter (hmark : mark ∈ marks) (h : ∀ c ∈ digits, Hex.isDigit c = true)
    (htext : text.toList.filter (· ∉ fillers) = mark ++ digits) : CodeBody text digits := by
  rw [codeBody_iff]
  simp only [not_isFiller_eq]
  rw [filter_trim (by rw [htext]; exact not_isBlank_of_mem_append hmark h), htext,
    stripMark_append hmark h]

/-- What is left of code text is the bytes it denotes, or has a first character that is no digit, or
an odd length. -/
inductive CodeRead (t : List Char) : Except InputError (List UInt8) → Prop where
  | bytes {bytes : List UInt8} (h : Hex.Spells t bytes) : CodeRead t (.ok bytes)
  | foreign {before : List Char} {c : Char} (h : FirstForeign Hex.isDigit t before c) :
      CodeRead t (.error (.invalidCharacter c (utf8 before).length))
  | oddLength (hdigits : ∀ c ∈ t, Hex.isDigit c = true) (hodd : t.length % 2 = 1) :
      CodeRead t (.error .oddLength)

theorem codeDigits_of_foreign {before : List Char} (hbody : CodeBody text t)
    (h : FirstForeign Hex.isDigit t before c) :
    codeDigits text = .error (.invalidCharacter c (utf8 before).length) := by
  have hfirst : firstNonHex 0 t = some (c, (utf8 before).length) :=
    firstNonHex_eq_some_iff.2 ⟨before, h, (Nat.zero_add _).symm⟩
  simp only [codeDigits, ← codeBody_iff.1 hbody, hfirst]

theorem codeDigits_of_isDigit (hbody : CodeBody text t) (h : ∀ c ∈ t, Hex.isDigit c = true) :
    codeDigits text = if t.length % 2 = 1 then .error .oddLength else .ok t := by
  simp only [codeDigits, ← codeBody_iff.1 hbody, firstNonHex_eq_none_iff.2 h]

theorem codeDigits_of_spells (hbody : CodeBody text t) (h : Hex.Spells t bytes) :
    codeDigits text = .ok t := by
  rw [codeDigits_of_isDigit hbody h.isDigit, if_neg]
  rw [h.length_eq]
  omega

theorem code_of_error {e : InputError} (h : codeDigits text = .error e) : code text = .error e := by
  rw [code, h]
  rfl

theorem code_of_spells (hbody : CodeBody text t) (h : Hex.Spells t bytes) :
    code text = .ok bytes := by
  rw [code, codeDigits_of_spells hbody h, ok_bind, Hex.decode_eq_some_iff.2 h]

theorem CodeRead.code_eq (hbody : CodeBody text t) (h : CodeRead t r) : code text = r := by
  cases h with
  | bytes h => exact code_of_spells hbody h
  | foreign h => exact code_of_error (codeDigits_of_foreign hbody h)
  | oddLength hdigits hodd =>
    apply code_of_error
    rw [codeDigits_of_isDigit hbody hdigits, if_pos hodd]

/-- Whatever is left of a text, one of the rules applies. -/
theorem exists_codeRead (t : List Char) : ∃ r, CodeRead t r := by
  by_cases hdigits : ∀ c ∈ t, Hex.isDigit c = true
  · rcases Nat.mod_two_eq_zero_or_one t.length with heven | hodd
    · obtain ⟨bytes, hbytes⟩ := Hex.exists_spells_iff.2 ⟨hdigits, heven⟩
      exact ⟨_, .bytes hbytes⟩
    · exact ⟨_, .oddLength hdigits hodd⟩
  · obtain ⟨before, c, hforeign⟩ := exists_firstForeign hdigits
    exact ⟨_, .foreign hforeign⟩

theorem code_eq_iff (hbody : CodeBody text t) : code text = r ↔ CodeRead t r :=
  eq_iff_of_rules (fun _ => CodeRead.code_eq hbody) (exists_codeRead t)

/-- A text that begins with neither blank space nor a digit fails there. -/
theorem code_of_foreign_head {cs : List Char} (htext : text.toList = c :: cs)
    (hblank : isBlank c = false) (hdigit : Hex.isDigit c = false) :
    code text = .error (.invalidCharacter c 0) := by
  have hfiller : isFiller c = false := by
    have hfillers : ∀ c ∈ fillers, isBlank c = true := List.all_eq_true.1 (by decide)
    have hmem : c ∉ fillers := fun hmem => by simp [hfillers c hmem] at hblank
    simpa [hmem] using not_isFiller_eq c
  have hmark : ∀ t, stripMark (c :: t) = c :: t := by
    intro t
    have hzero : c ≠ '0' := by
      rintro rfl
      cases hdigit
    unfold stripMark
    split
    · simp_all
    · simp_all
    · rfl
  obtain ⟨core, hcore⟩ : ∃ core, trim text.toList = c :: core := htext ▸ exists_trim_cons hblank cs
  have hbody : CodeBody text (c :: core.filter fun c => !isFiller c) := by
    rw [codeBody_iff, hcore, List.filter_cons_of_pos (by simp [hfiller]), hmark]
  exact (CodeRead.foreign ((firstForeign_cons_of_neg hdigit).2 ⟨rfl, rfl⟩)).code_eq hbody

theorem code_eq_ok_iff (hbody : CodeBody text t) : code text = .ok bytes ↔ Hex.Spells t bytes := by
  rw [code_eq_iff hbody]
  constructor
  · rintro ⟨h⟩
    exact h
  · exact .bytes

theorem codeDigits_eq_ok_iff (hbody : CodeBody text t) :
    codeDigits text = .ok digits ↔ digits = t ∧ ∃ bytes, Hex.Spells t bytes := by
  constructor
  · intro h
    obtain ⟨r, hr⟩ := exists_codeRead t
    cases hr with
    | bytes hbytes =>
      cases (codeDigits_of_spells hbody hbytes).symm.trans h
      exact ⟨rfl, _, hbytes⟩
    | foreign hforeign => cases (codeDigits_of_foreign hbody hforeign).symm.trans h
    | oddLength hdigits hodd =>
      rw [codeDigits_of_isDigit hbody hdigits, if_pos hodd] at h
      cases h
  · rintro ⟨rfl, bytes, hbytes⟩
    exact codeDigits_of_spells hbody hbytes

/-- Digits are normal as they stand. -/
theorem codeBody_ofList (h : ∀ c ∈ digits, Hex.isDigit c = true) :
    CodeBody (String.ofList digits) digits := by
  refine codeBody_of_filter List.mem_cons_self h ?_
  rw [String.toList_ofList, List.nil_append, List.filter_eq_self]
  exact fun c hc => decide_eq_true (not_mem_fillers_of_isDigit (h c hc))

/-- Code text is accepted exactly when digits by twos are left of it, as the bytes they denote. What
the first step lets through the second one decodes, as addresses are decoded; it stays as it is when
it goes through once more. Bytes are read back from their digits in any case, with or without a
mark, and with fillers anywhere. -/
theorem code_accepts_exactly_digits (text : String) :
    ∃ t, (∀ u, CodeBody text u ↔ u = t) ∧
      (∀ r, code text = r ↔ CodeRead t r) ∧
      ((∃ bytes, code text = .ok bytes) ↔ (∀ c ∈ t, c ∈ Hex.alphabet) ∧ t.length % 2 = 0) ∧
      (∀ digits, codeDigits text = .ok digits ↔
        digits = t ∧ ∃ bytes, hexBytes (utf8 digits) = .ok bytes ∧ code text = .ok bytes) ∧
      (∀ digits, codeDigits text = .ok digits → codeDigits (String.ofList digits) = .ok digits) ∧
      (∀ bytes mark digits, mark ∈ marks → digits.map Char.toLower = Hex.encode bytes →
        text.toList.filter (· ∉ fillers) = mark ++ digits → code text = .ok bytes) := by
  refine ⟨_, fun u => codeBody_iff, ?_⟩
  generalize hleft : stripMark ((trim text.toList).filter fun c => !isFiller c) = t
  have hbody : CodeBody text t := codeBody_iff.2 hleft.symm
  refine ⟨fun r => code_eq_iff hbody, ?_, fun digits => ?_, fun digits h => ?_, ?_⟩
  · simp only [code_eq_ok_iff hbody, Hex.exists_spells_iff, Hex.isDigit_iff_mem]
  · rw [codeDigits_eq_ok_iff hbody]
    constructor
    · rintro ⟨rfl, bytes, hbytes⟩
      exact ⟨rfl, bytes, hexBytes_utf8 hbytes, code_of_spells hbody hbytes⟩
    · rintro ⟨rfl, bytes, -, hcode⟩
      exact ⟨rfl, bytes, (code_eq_ok_iff hbody).1 hcode⟩
  · obtain ⟨rfl, bytes, hbytes⟩ := (codeDigits_eq_ok_iff hbody).1 h
    exact codeDigits_of_spells (codeBody_ofList hbytes.isDigit) hbytes
  · intro bytes mark digits hmark hlower htext
    have hbytes := Hex.spells_iff_map_toLower.2 hlower
    exact code_of_spells (codeBody_of_filter hmark hbytes.isDigit htext) hbytes

/-- A mark and digits that are broken up, the letters in both cases. -/
theorem code_accepts_broken_up :
    codeDigits "\t0 X6\n0F f\r" = .ok "60Ff".toList ∧
      codeDigits (String.ofList "60Ff".toList) = .ok "60Ff".toList ∧
      "0X".toList ∈ marks ∧ "60Ff".toList.map Char.toLower = Hex.encode [0x60, 0xff] ∧
      "\t0 X6\n0F f\r".toList.filter (· ∉ fillers) = "0X".toList ++ "60Ff".toList ∧
      code "\t0 X6\n0F f\r" = .ok [0x60, 0xff] := by
  obtain ⟨-, -, -, -, -, hagain, hread⟩ := code_accepts_exactly_digits "\t0 X6\n0F f\r"
  have hdigits : codeDigits "\t0 X6\n0F f\r" = .ok "60Ff".toList := by decide
  have hmark : "0X".toList ∈ marks := by decide
  have hlower : "60Ff".toList.map Char.toLower = Hex.encode [0x60, 0xff] := by decide
  have htext : "\t0 X6\n0F f\r".toList.filter (· ∉ fillers) =
      "0X".toList ++ "60Ff".toList := by decide
  exact ⟨hdigits, hagain _ hdigits, hmark, hlower, htext, hread _ _ _ hmark hlower htext⟩

end ProposalVetting.Input
