import ProposalVetting.Proofs.Input.Digits
import ProposalVetting.Proofs.Text.Numeral

namespace ProposalVetting.Input
open Text

variable {text : String} {t rest : List Char} {x : Char} {n m : Nat} {w : UInt64}
  {r : Except InputError UInt64}

/-- The number that a text stands for: behind a mark in hexadecimal, zero where nothing follows, and
else in decimal. -/
inductive Counts : List Char → Nat → Prop where
  | mark {x : Char} (hx : x = 'x' ∨ x = 'X') : Counts ['0', x] 0
  | hexadecimal {x : Char} {rest : List Char} {n : Nat} (hx : x = 'x' ∨ x = 'X')
      (h : Numeral.Signed 16 rest n) : Counts ('0' :: x :: rest) n
  | decimal {t : List Char} {n : Nat} (h : Numeral.Signed 10 t n) : Counts t n

theorem not_signed_of_marked {radix : Nat} (hx : x = 'x' ∨ x = 'X') :
    ¬ Numeral.Signed radix ('0' :: x :: rest) n := by
  intro h
  have hmem := h.mem x (by simp)
  rcases hx with rfl | rfl <;> revert hmem <;> decide

theorem counts_marked_iff (hx : x = 'x' ∨ x = 'X') :
    Counts ('0' :: x :: rest) n ↔ rest = [] ∧ n = 0 ∨ Numeral.Signed 16 rest n := by
  constructor
  · intro h
    cases h with
    | mark => exact .inl ⟨rfl, rfl⟩
    | hexadecimal _ h => exact .inr h
    | decimal h => exact absurd h (not_signed_of_marked hx)
  · rintro (⟨rfl, rfl⟩ | h)
    · exact .mark hx
    · exact .hexadecimal hx h

theorem counts_bare_iff (hbare : ∀ x rest, x = 'x' ∨ x = 'X' → t ≠ '0' :: x :: rest) :
    Counts t n ↔ Numeral.Signed 10 t n := by
  constructor
  · intro h
    cases h with
    | mark hx => exact absurd rfl (hbare _ _ hx)
    | hexadecimal hx => exact absurd rfl (hbare _ _ hx)
    | decimal h => exact h
  · exact .decimal

/-- No text stands for two numbers. -/
theorem Counts.unique (h : Counts t n) (h' : Counts t m) : n = m := by
  have hunmarked := unmarked_stripMark t
  generalize stripMark t = u at hunmarked
  cases hunmarked with
  | marked hx =>
    rcases (counts_marked_iff hx).1 h with ⟨hrest, rfl⟩ | h
    · rcases (counts_marked_iff hx).1 h' with ⟨-, rfl⟩ | h'
      · rfl
      · exact absurd (hrest ▸ h') Numeral.Signed.not_nil
    · rcases (counts_marked_iff hx).1 h' with ⟨hrest, -⟩ | h'
      · exact absurd (hrest ▸ h) Numeral.Signed.not_nil
      · exact h.unique h'
  | bare hbare => exact ((counts_bare_iff hbare).1 h).unique ((counts_bare_iff hbare).1 h')

theorem nonceDigits?_marked (hx : x = 'x' ∨ x = 'X') :
    nonceDigits? ('0' :: x :: rest) = if rest = [] then some 0 else Numeral.word? 16 rest := by
  rcases hx with rfl | rfl <;> rfl

theorem nonceDigits?_bare (hbare : ∀ x rest, x = 'x' ∨ x = 'X' → t ≠ '0' :: x :: rest) :
    nonceDigits? t = Numeral.word? 10 t := by
  fun_cases nonceDigits? t with
  | case1 => exact absurd rfl (hbare _ _ (.inl rfl))
  | case2 => exact absurd rfl (hbare _ _ (.inl rfl))
  | case3 => exact absurd rfl (hbare _ _ (.inr rfl))
  | case4 => exact absurd rfl (hbare _ _ (.inr rfl))
  | case5 => rfl

theorem nonceDigits?_eq_some_iff : nonceDigits? t = some w ↔ Counts t w.toNat := by
  have hunmarked := unmarked_stripMark t
  generalize stripMark t = u at hunmarked
  cases hunmarked with
  | marked hx =>
    rw [nonceDigits?_marked hx, counts_marked_iff hx]
    split
    · next hrest =>
      subst hrest
      rw [Option.some_inj, or_iff_left Numeral.Signed.not_nil, ← UInt64.toNat_inj]
      exact ⟨fun h => ⟨rfl, h.symm⟩, fun h => h.2.symm⟩
    · next hrest => rw [Numeral.word?_eq_some_iff, or_iff_right fun h => hrest h.1]
  | bare hbare => rw [nonceDigits?_bare hbare, counts_bare_iff hbare, Numeral.word?_eq_some_iff]

/-- What is between blank space is a number of 64 bits, a greater one, or none at all. -/
inductive NonceRead (text : String) (t : List Char) : Except InputError UInt64 → Prop where
  | number {n : Nat} (h : Counts t n) (hn : n < UInt64.size) :
    NonceRead text t (.ok (UInt64.ofNat n))
  | tooLarge {n : Nat} (h : Counts t n) (hn : UInt64.size ≤ n) :
    NonceRead text t (.error (.nonce text))
  | malformed (h : ∀ n, ¬ Counts t n) : NonceRead text t (.error (.nonce text))

theorem nonce_eq_ok_iff (hcore : Trimmed text.toList t) :
    nonce text = .ok w ↔ Counts t w.toNat := by
  rw [← nonceDigits?_eq_some_iff, nonce, ← trimmed_iff.1 hcore]
  cases nonceDigits? t <;> simp

theorem nonce_of_not_counts (hcore : Trimmed text.toList t) (h : ∀ n < UInt64.size, ¬ Counts t n) :
    nonce text = .error (.nonce text) := by
  have hnone : nonceDigits? t = none :=
    Option.eq_none_iff_forall_ne_some.2 fun w hw =>
      h w.toNat w.toNat_lt (nonceDigits?_eq_some_iff.1 hw)
  simp only [nonce, ← trimmed_iff.1 hcore, hnone]

theorem NonceRead.nonce_eq (hcore : Trimmed text.toList t) (h : NonceRead text t r) :
    Input.nonce text = r := by
  cases h with
  | @number n h hn =>
    rw [nonce_eq_ok_iff hcore, UInt64.toNat_ofNat_of_lt' hn]
    exact h
  | @tooLarge n h hn =>
    refine nonce_of_not_counts hcore fun m hm hmcounts => ?_
    rw [h.unique hmcounts] at hn
    omega
  | malformed h => exact nonce_of_not_counts hcore fun n _ => h n

theorem exists_nonceRead (text : String) (t : List Char) : ∃ r, NonceRead text t r := by
  by_cases hcounts : ∃ n, Counts t n
  · obtain ⟨n, h⟩ := hcounts
    rcases Nat.lt_or_ge n UInt64.size with hn | hn
    · exact ⟨_, .number h hn⟩
    · exact ⟨_, .tooLarge h hn⟩
  · exact ⟨_, .malformed (not_exists.1 hcounts)⟩

theorem nonce_eq_iff (hcore : Trimmed text.toList t) : nonce text = r ↔ NonceRead text t r :=
  eq_iff_of_rules (fun _ => NonceRead.nonce_eq hcore) (exists_nonceRead text t)

theorem Counts.not_nil : ¬ Counts [] n := by
  rw [counts_bare_iff (by simp)]
  exact Numeral.Signed.not_nil

theorem Counts.not_plus : ¬ Counts ['+'] n := by
  rw [counts_bare_iff (by simp), Numeral.signed_plus_iff]
  exact fun h => h.1 rfl

/-- Signs, marks and digits are all there is in the text of a number. -/
theorem Counts.mem (h : Counts t n) : ∀ c ∈ t, c ∈ '+' :: 'x' :: 'X' :: Hex.alphabet := by
  have hsigned : ∀ {radix cs n}, Numeral.Signed radix cs n →
      ∀ c ∈ cs, c ∈ '+' :: 'x' :: 'X' :: Hex.alphabet := by
    intro radix cs n h c hc
    rcases h.mem c hc with rfl | hdigit
    · exact List.mem_cons_self
    · simp [Hex.isDigit_iff_mem.1 hdigit]
  have hzero : '0' ∈ '+' :: 'x' :: 'X' :: Hex.alphabet := by decide
  have hmark : ∀ x, x = 'x' ∨ x = 'X' → x ∈ '+' :: 'x' :: 'X' :: Hex.alphabet := by
    rintro x (rfl | rfl) <;> decide
  cases h with
  | mark hx => exact List.forall_mem_cons.2 ⟨hzero, List.forall_mem_singleton.2 (hmark _ hx)⟩
  | hexadecimal hx h =>
    exact List.forall_mem_cons.2 ⟨hzero, List.forall_mem_cons.2 ⟨hmark _ hx, hsigned h⟩⟩
  | decimal h => exact hsigned h

theorem nonce_ofList (hblank : ∀ c ∈ t, isBlank c = false) (h : Counts t w.toNat) :
    nonce (String.ofList t) = .ok w := by
  have hcore : Trimmed (String.ofList t).toList t := by
    rw [trimmed_iff, String.toList_ofList, trim_of_not_isBlank hblank]
  exact (nonce_eq_ok_iff hcore).2 h

theorem ne_nil_zeros_toDigits (zeros radix n : Nat) :
    List.replicate zeros '0' ++ Nat.toDigits radix n ≠ [] :=
  List.append_ne_nil_of_right_ne_nil _ Nat.toDigits_ne_nil

theorem nonce_decimal (w : UInt64) (zeros : Nat) :
    nonce (String.ofList (List.replicate zeros '0' ++ Nat.toDigits 10 w.toNat)) = .ok w := by
  have hdenotes :=
    (Numeral.denotes_toDigits (by decide : 1 < 10) (by decide) w.toNat).zeros_append
      (by decide) zeros
  refine nonce_ofList (fun c hc => not_isBlank_of_isDigit (hdenotes.isDigit c hc)) (.decimal ?_)
  exact hdenotes.signed (ne_nil_zeros_toDigits _ _ _)

theorem nonce_hexadecimal (w : UInt64) (zeros : Nat) :
    nonce (String.ofList ('0' :: 'x' :: (List.replicate zeros '0' ++ Nat.toDigits 16 w.toNat))) =
      .ok w := by
  have hdenotes :=
    (Numeral.denotes_toDigits (by decide : 1 < 16) (by decide) w.toNat).zeros_append
      (by decide) zeros
  have hmark : ['0', 'x'] ∈ marks := by decide
  refine nonce_ofList (not_isBlank_of_mem_append hmark hdenotes.isDigit)
    (.hexadecimal (.inl rfl) ?_)
  exact hdenotes.signed (ne_nil_zeros_toDigits _ _ _)

/-- A transaction count is accepted exactly when its text stands for a number below 2 ^ 64, as that
number and whatever the zeros in front. A text with any other character is refused, and so is one
without digits. -/
theorem nonce_reads_numbers_exactly :
    (∀ text, ∃ t, (∀ u, Trimmed text.toList u ↔ u = t) ∧
      (∀ r, nonce text = r ↔ NonceRead text t r) ∧
      (t = [] ∨ t = ['+'] ∨ (∃ c ∈ t, c ∉ '+' :: 'x' :: 'X' :: Hex.alphabet) →
        nonce text = .error (.nonce text))) ∧
    (∀ (w : UInt64) (zeros : Nat),
      nonce (String.ofList (List.replicate zeros '0' ++ Nat.toDigits 10 w.toNat)) = .ok w ∧
      nonce (String.ofList ('0' :: 'x' :: (List.replicate zeros '0' ++ Nat.toDigits 16 w.toNat))) =
        .ok w) := by
  refine
    ⟨fun text =>
      ⟨_, fun u => trimmed_iff, fun r => nonce_eq_iff (trimmed_trim _), fun h => ?_⟩,
    fun w zeros => ⟨nonce_decimal w zeros, nonce_hexadecimal w zeros⟩⟩
  refine nonce_of_not_counts (trimmed_trim _) fun n _ hcounts => ?_
  rcases h with h | h | ⟨c, hc, hforeign⟩
  · exact Counts.not_nil (h ▸ hcounts)
  · exact Counts.not_plus (h ▸ hcounts)
  · exact hforeign (hcounts.mem c hc)

/-- An underscore between digits. -/
theorem underscored_number_is_refused :
    (∃ c ∈ trim "1_000".toList, c ∉ '+' :: 'x' :: 'X' :: Hex.alphabet) ∧
    nonce "1_000" = .error (.nonce "1_000") := by
  have hforeign : ∃ c ∈ trim "1_000".toList, c ∉ '+' :: 'x' :: 'X' :: Hex.alphabet :=
    ⟨'_', by decide, by decide⟩
  obtain ⟨t, hcore, -, hrefused⟩ := nonce_reads_numbers_exactly.1 "1_000"
  obtain rfl := (hcore _).1 (trimmed_trim _)
  exact ⟨hforeign, hrefused (.inr (.inr hforeign))⟩

end ProposalVetting.Input
