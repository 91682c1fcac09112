import ProposalVetting.Text.Numeral
import ProposalVetting.Proofs.Text.Hex
import Mathlib.Data.List.Induction
import Mathlib.Data.Nat.Digits.Defs

namespace ProposalVetting.Text.Numeral

variable {radix n m d : Nat} {c : Char} {cs : List Char} {w : UInt64}

/-- Digits below the radix and their value by position, the last one the least significant. -/
def Denotes (radix : Nat) (cs : List Char) (n : Nat) : Prop :=
  ∃ ds, List.Forall₂ (fun c d => Hex.value? c = some d ∧ d < radix) cs.reverse ds ∧
    Nat.ofDigits radix ds = n

theorem digit?_eq_some_iff : digit? radix c = some d ↔ Hex.value? c = some d ∧ d < radix := by
  rw [digit?, Option.filter_eq_some_iff, decide_eq_true_iff]

theorem denotes_nil_iff : Denotes radix [] n ↔ n = 0 := by
  constructor
  · rintro ⟨ds, h, rfl⟩
    cases h
    rfl
  · rintro rfl
    exact ⟨[], .nil, rfl⟩

/-- One more digit is one more step of Horner's rule. -/
theorem denotes_concat_iff :
    Denotes radix (cs ++ [c]) n ↔
      ∃ m d, Denotes radix cs m ∧ digit? radix c = some d ∧ n = radix * m + d := by
  simp only [Denotes, List.reverse_concat, digit?_eq_some_iff]
  constructor
  · rintro ⟨_, h, rfl⟩
    obtain ⟨d, ds, hd, hds, rfl⟩ := List.forall₂_cons_left_iff.1 h
    exact ⟨_, d, ⟨ds, hds, rfl⟩, hd, by rw [Nat.ofDigits_cons, Nat.add_comm]⟩
  · rintro ⟨_, d, ⟨ds, hds, rfl⟩, hd, rfl⟩
    exact ⟨d :: ds, .cons hd hds, by rw [Nat.ofDigits_cons, Nat.add_comm]⟩

theorem value?_concat (radix : Nat) (cs : List Char) (c : Char) :
    value? radix (cs ++ [c]) =
      (value? radix cs).bind fun n => (digit? radix c).map (radix * n + ·) := by
  rw [value?, List.foldlM_append]
  refine congrArg _ (funext fun n => ?_)
  simp only [List.foldlM_cons, List.foldlM_nil, bind_pure]

theorem value?_eq_some_iff : value? radix cs = some n ↔ Denotes radix cs n := by
  induction cs using List.reverseRecOn generalizing n with
  | nil =>
    rw [denotes_nil_iff]
    exact ⟨fun h => (Option.some.inj h).symm, fun h => h ▸ rfl⟩
  | append_singleton cs c ih =>
    simp only [value?_concat, denotes_concat_iff, Option.bind_eq_some_iff,
      Option.map_eq_some_iff, ih]
    constructor
    · rintro ⟨m, hm, d, hd, rfl⟩
      exact ⟨m, d, hm, hd, rfl⟩
    · rintro ⟨m, d, hm, hd, rfl⟩
      exact ⟨m, hm, d, hd, rfl⟩

theorem Denotes.unique (h : Denotes radix cs n) (h' : Denotes radix cs m) : n = m :=
  Option.some.inj ((value?_eq_some_iff.2 h).symm.trans (value?_eq_some_iff.2 h'))

theorem Denotes.isDigit (h : Denotes radix cs n) : ∀ c ∈ cs, Hex.isDigit c = true := by
  induction cs using List.reverseRecOn generalizing n with
  | nil => simp
  | append_singleton cs c ih =>
    obtain ⟨m, d, hm, hd, -⟩ := denotes_concat_iff.1 h
    have hc : Hex.isDigit c = true := by
      rw [Hex.isDigit, (digit?_eq_some_iff.1 hd).1]
      rfl
    simpa [or_imp, forall_and, hc] using ih hm

/-- Zeros in front count for nothing, however many. -/
theorem Denotes.zeros_append (hradix : 0 < radix) (h : Denotes radix cs n) (zeros : Nat) :
    Denotes radix (List.replicate zeros '0' ++ cs) n := by
  obtain ⟨ds, hds, rfl⟩ := h
  have hzeros :
      List.Forall₂ (fun c d => Hex.value? c = some d ∧ d < radix) (List.replicate zeros '0')
        (List.replicate zeros 0) := by
    induction zeros with
    | zero => exact .nil
    | succ zeros ih => exact .cons ⟨rfl, hradix⟩ ih
  refine ⟨ds ++ List.replicate zeros 0, ?_, Nat.ofDigits_append_replicate_zero _⟩
  rw [List.reverse_append, List.reverse_replicate]
  exact List.rel_append hds hzeros

theorem digit?_digitChar (hradix : radix ≤ 16) (hd : d < radix) :
    digit? radix d.digitChar = some d := by
  have hdigits : ∀ d < 16, Hex.value? d.digitChar = some d := by decide
  exact digit?_eq_some_iff.2 ⟨hdigits d (Nat.lt_of_lt_of_le hd hradix), hd⟩

theorem denotes_toDigits (hradix : 1 < radix) (hsixteen : radix ≤ 16) (n : Nat) :
    Denotes radix (Nat.toDigits radix n) n := by
  induction n using Nat.strongRecOn with
  | ind n ih =>
    by_cases hlt : n < radix
    · rw [Nat.toDigits_of_lt_base hlt, ← List.nil_append [n.digitChar]]
      exact denotes_concat_iff.2
        ⟨0, n, denotes_nil_iff.2 rfl, digit?_digitChar hsixteen hlt,
          by rw [Nat.mul_zero, Nat.zero_add]⟩
    · have hle := Nat.le_of_not_lt hlt
      rw [Nat.toDigits_of_base_le hradix hle]
      have hrest := ih (n / radix) (Nat.div_lt_self (by omega) hradix)
      have hlast := digit?_digitChar hsixteen (Nat.mod_lt n (by omega))
      exact denotes_concat_iff.2 ⟨_, _, hrest, hlast, (Nat.div_add_mod n radix).symm⟩

/-- One plus sign at most, then one digit at least. -/
def Signed (radix : Nat) (cs : List Char) (n : Nat) : Prop :=
  ∃ sign digits, sign ∈ [[], ['+']] ∧ digits ≠ [] ∧ cs = sign ++ digits ∧ Denotes radix digits n

theorem digits?_eq_some_iff : digits? radix cs = some w ↔ cs ≠ [] ∧ Denotes radix cs w.toNat := by
  cases cs with
  | nil => simp [digits?]
  | cons c cs =>
    have hdigits : digits? radix (c :: cs) =
        ((value? radix (c :: cs)).filter (· < UInt64.size)).map UInt64.ofNat := rfl
    simp only [hdigits, Option.map_eq_some_iff, Option.filter_eq_some_iff, decide_eq_true_iff,
      value?_eq_some_iff]
    constructor
    · rintro ⟨n, ⟨hn, hlt⟩, rfl⟩
      rw [UInt64.toNat_ofNat_of_lt' hlt]
      exact ⟨List.cons_ne_nil _ _, hn⟩
    · rintro ⟨-, h⟩
      exact ⟨w.toNat, ⟨h, w.toNat_lt⟩, UInt64.ofNat_toNat⟩

theorem not_denotes_plus {rest : List Char} : ¬ Denotes radix ('+' :: rest) n := by
  intro h
  cases h.isDigit '+' List.mem_cons_self

/-- The sign is there or not, and digits tell which. -/
theorem signed_plus_iff {rest : List Char} :
    Signed radix ('+' :: rest) n ↔ rest ≠ [] ∧ Denotes radix rest n := by
  constructor
  · rintro ⟨sign, digits, hsign, hne, heq, h⟩
    simp only [List.mem_cons, List.not_mem_nil, or_false] at hsign
    rcases hsign with rfl | rfl
    · rw [List.nil_append] at heq
      exact absurd (heq ▸ h) not_denotes_plus
    · obtain rfl := (List.cons.inj heq).2
      exact ⟨hne, h⟩
  · rintro ⟨hne, h⟩
    exact ⟨['+'], rest, by simp, hne, rfl, h⟩

theorem signed_iff_of_ne (hplus : ∀ rest, cs ≠ '+' :: rest) :
    Signed radix cs n ↔ cs ≠ [] ∧ Denotes radix cs n := by
  constructor
  · rintro ⟨sign, digits, hsign, hne, rfl, h⟩
    simp only [List.mem_cons, List.not_mem_nil, or_false] at hsign
    rcases hsign with rfl | rfl
    · exact ⟨hne, h⟩
    · exact absurd rfl (hplus digits)
  · rintro ⟨hne, h⟩
    exact ⟨[], cs, List.mem_cons_self, hne, rfl, h⟩

theorem word?_eq_some_iff : word? radix cs = some w ↔ Signed radix cs w.toNat := by
  fun_cases word? radix cs with
  | case1 rest => rw [signed_plus_iff, digits?_eq_some_iff]
  | case2 _ hplus => rw [signed_iff_of_ne hplus, digits?_eq_some_iff]

theorem Signed.unique (h : Signed radix cs n) (h' : Signed radix cs m) : n = m := by
  by_cases hplus : ∃ rest, cs = '+' :: rest
  · obtain ⟨rest, rfl⟩ := hplus
    exact (signed_plus_iff.1 h).2.unique (signed_plus_iff.1 h').2
  · have hplus := not_exists.1 hplus
    exact ((signed_iff_of_ne hplus).1 h).2.unique ((signed_iff_of_ne hplus).1 h').2

theorem Signed.not_nil : ¬ Signed radix [] n := by
  intro h
  exact ((signed_iff_of_ne (by simp)).1 h).1 rfl

theorem Signed.mem (h : Signed radix cs n) : ∀ c ∈ cs, c = '+' ∨ Hex.isDigit c = true := by
  obtain ⟨sign, digits, hsign, -, rfl, hdigits⟩ := h
  intro c hc
  rcases List.mem_append.1 hc with hc | hc
  · have hsigns : ∀ sign ∈ [[], ['+']], ∀ c ∈ sign, c = '+' := by simp
    exact .inl (hsigns sign hsign c hc)
  · exact .inr (hdigits.isDigit c hc)

theorem Denotes.signed (hne : cs ≠ []) (h : Denotes radix cs n) : Signed radix cs n :=
  ⟨[], cs, List.mem_cons_self, hne, rfl, h⟩

end ProposalVetting.Text.Numeral
