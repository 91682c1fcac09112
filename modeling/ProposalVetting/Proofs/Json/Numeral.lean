import ProposalVetting.Json.Reading
import ProposalVetting.Json.Value

namespace ProposalVetting.Json

namespace Numeral

/-- What follows does not go on with a number. -/
def Ends (rest : List Char) : Prop :=
  ∀ c ∈ rest.head?, isDigit c = false ∧ c ≠ '.' ∧ c ≠ 'e' ∧ c ≠ 'E'

variable {n : Nat} {c : Char} {ds rest : List Char}

theorem ends_nil : Ends [] := by simp [Ends]

theorem isDigit_of_mem_toDigits (hc : c ∈ Nat.toDigits 10 n) : isDigit c = true :=
  Nat.isDigit_of_mem_toDigits (by decide) (by decide) hc

theorem exists_toDigits_eq_cons (n : Nat) :
    ∃ c cs, Nat.toDigits 10 n = c :: cs ∧ isDigit c = true := by
  obtain ⟨c, cs, hcs⟩ := List.exists_cons_of_ne_nil (Nat.toDigits_ne_nil (n := n) (b := 10))
  exact ⟨c, cs, hcs, isDigit_of_mem_toDigits (by rw [hcs]; exact List.mem_cons_self)⟩

theorem ne_of_isDigit {d : Char} (hc : isDigit c = true) (hd : isDigit d = false) : c ≠ d := by
  rintro rfl
  simp [hd] at hc

theorem natOf_toDigits (n : Nat) : natOf (Nat.toDigits 10 n) = n := Nat.ofDigitChars_ten_toDigits

/-- Only zero is written with a leading zero. -/
theorem head?_toDigits_ne_zero (hn : 0 < n) : (Nat.toDigits 10 n).head? ≠ some '0' := by
  induction n using Nat.strongRecOn with
  | ind n ih =>
    by_cases hlt : n < 10
    · rw [Nat.toDigits_of_lt_base hlt]
      have hdigits : ∀ m < 10, 0 < m → m.digitChar ≠ '0' := by decide
      simpa using hdigits n hlt hn
    · rw [Nat.toDigits_of_base_le (by decide) (by omega), List.head?_append]
      intro h
      rcases Option.or_eq_some_iff.1 h with h | ⟨h, -⟩
      · exact ih (n / 10) (by omega) (by omega) h
      · exact Nat.toDigits_ne_nil (List.head?_eq_none_iff.1 h)

theorem digits_append (hne : ds ≠ []) (hds : ∀ c ∈ ds, isDigit c = true) (hrest : Ends rest) :
    digits (ds ++ rest) = .ok (ds, rest) := by
  have htake : (ds ++ rest).takeWhile isDigit = ds := by
    rw [List.takeWhile_append_of_pos hds]
    cases rest with
    | nil => simp
    | cons c rest => rw [List.takeWhile_cons_of_neg (by simp [(hrest c rfl).1]), List.append_nil]
  have hdrop : (ds ++ rest).dropWhile isDigit = rest := by
    rw [List.dropWhile_append_of_pos hds]
    cases rest with
    | nil => rfl
    | cons c rest => rw [List.dropWhile_cons_of_neg (by simp [(hrest c rfl).1])]
  unfold digits
  rw [htake, hdrop]
  split
  · exact absurd rfl hne
  · exact absurd rfl hne
  · rfl

theorem readFraction_of_ends (hrest : Ends rest) (x : Numeral) :
    readFraction x rest = .ok (x, rest) := by
  cases rest with
  | nil => rfl
  | cons c rest =>
    obtain ⟨-, hpoint, hlower, hupper⟩ := hrest c rfl
    unfold readFraction
    split
    · next heq => exact absurd (List.cons.inj heq).1 hpoint
    · unfold readExponent
      simp only [hlower, hupper, or_self, if_false]
      rfl

theorem read_toDigits (n : Nat) (hrest : Ends rest) :
    read (Nat.toDigits 10 n ++ rest) =
      .ok ({ negative := false, whole := Nat.toDigits 10 n }, rest) := by
  have hdigits : ∀ c ∈ Nat.toDigits 10 n, isDigit c = true := fun c => isDigit_of_mem_toDigits
  have hzero : ¬ ((Nat.toDigits 10 n).head? = some '0' ∧ (Nat.toDigits 10 n).length ≠ 1) := by
    rintro ⟨hhead, hlength⟩
    rcases Nat.eq_zero_or_pos n with rfl | hn
    · exact hlength rfl
    · exact head?_toDigits_ne_zero hn hhead
  have hwhole : readWhole false (Nat.toDigits 10 n ++ rest) =
      .ok ({ negative := false, whole := Nat.toDigits 10 n }, rest) := by
    rw [readWhole, digits_append Nat.toDigits_ne_nil hdigits hrest]
    simp only [bind, Except.bind]
    rw [if_neg hzero]
    exact readFraction_of_ends hrest _
  unfold read
  split
  · next heq =>
    -- no sign stands in front of the digits
    obtain ⟨c, cs, hcs, hdigit⟩ := exists_toDigits_eq_cons n
    rw [hcs] at heq
    exact absurd (List.cons.inj heq).1 (ne_of_isDigit hdigit rfl)
  · exact hwhole

theorem value?_toDigits (hn : n < UInt64.size) :
    value? { negative := false, whole := Nat.toDigits 10 n } = some (.integer n) := by
  simp [value?, natOf_toDigits, hn]

end Numeral

theorem Reading.ofNumber_toDigits {n : Nat} {rest : List Char} (hn : n < UInt64.size)
    (hrest : Numeral.Ends rest) :
    ofNumber (Nat.toDigits 10 n ++ rest) = (.number (some (.integer n)), rest) := by
  rw [ofNumber, Numeral.read_toDigits n hrest]
  simp only [Numeral.value?_toDigits hn]

theorem Number.text_natural (n : Nat) : (Number.text (.integer n)).toList = Nat.toDigits 10 n := by
  change (Nat.repr n).toList = _
  exact Nat.toList_repr

end ProposalVetting.Json
