import ProposalVetting.Text.Hex
import Mathlib.Data.List.Forall2

namespace ProposalVetting.Text.Hex

variable {c d : Char} {cs ds : List Char} {n : Nat} {bytes : List UInt8}

/-- The characters with these numbers. -/
def block (low count : Nat) : List Char := (List.range' low count).map Char.ofNat

theorem mem_block {low count : Nat} (hlow : low ≤ c.toNat) (hhigh : c.toNat < low + count) :
    c ∈ block low count :=
  List.mem_map.2 ⟨c.toNat, List.mem_range'_1.2 ⟨hlow, hhigh⟩, Char.ofNat_toNat c⟩

/-- The other letter case of a digit, and of anything else, has the same value. -/
theorem value?_toUpper (c : Char) : value? c.toUpper = value? c := by
  have hletters : ∀ c ∈ block 97 26, value? c.toUpper = value? c :=
    List.forall_mem_map.2 (by decide)
  by_cases hlower : c.val ≥ 'a'.val ∧ c.val ≤ 'z'.val
  · exact hletters c (mem_block hlower.1 (Nat.lt_succ_of_le hlower.2))
  · have hsame : c.toUpper = c := dif_neg hlower
    rw [hsame]

theorem value?_toLower (c : Char) : value? c.toLower = value? c := by
  have hletters : ∀ c ∈ block 65 26, value? c.toLower = value? c :=
    List.forall_mem_map.2 (by decide)
  by_cases hupper : c.val ≥ 'A'.val ∧ c.val ≤ 'Z'.val
  · exact hletters c (mem_block hupper.1 (Nat.lt_succ_of_le hupper.2))
  · have hsame : c.toLower = c := dif_neg hupper
    rw [hsame]

theorem value?_digit (h : n < 16) : value? (digit n) = some n := by
  have hdigits : ∀ n < 16, value? (digit n) = some n := by decide
  exact hdigits n h

theorem toNat_of_isDigit (h : isDigit c = true) : 48 ≤ c.toNat ∧ c.toNat < 103 := by
  obtain ⟨n, hn⟩ := Option.isSome_iff_exists.1 h
  unfold value? at hn
  split at hn
  · next hc => exact ⟨hc.1, Nat.lt_of_le_of_lt hc.2 (by decide)⟩
  · split at hn
    · next hc => exact ⟨Nat.le_trans (by decide) hc.1, Nat.lt_of_le_of_lt hc.2 (by decide)⟩
    · split at hn
      · next hc => exact ⟨Nat.le_trans (by decide) hc.1, Nat.lt_of_le_of_lt hc.2 (by decide)⟩
      · cases hn

def alphabet : List Char := "0123456789abcdefABCDEF".toList

/-- The digits are those of ASCII and no others. -/
theorem isDigit_iff_mem : isDigit c = true ↔ c ∈ alphabet := by
  constructor
  · intro h
    have hmem : ∀ c ∈ block 48 55, isDigit c = true → c ∈ alphabet :=
      List.forall_mem_map.2 (by decide)
    obtain ⟨hlow, hhigh⟩ := toNat_of_isDigit h
    exact hmem c (mem_block hlow hhigh) h
  · have hdigits : alphabet.all isDigit = true := by decide
    exact List.all_eq_true.1 hdigits c

/-- In lower case there is one digit for each value. -/
theorem value?_eq_some_iff : value? c = some n ↔ n < 16 ∧ c.toLower = digit n := by
  constructor
  · intro h
    have hvalues : ∀ c ∈ block 48 55, ∀ n ∈ value? c, n < 16 ∧ c.toLower = digit n :=
      List.forall_mem_map.2 (by decide)
    have hdigit : isDigit c = true := by rw [isDigit, h]; rfl
    obtain ⟨hlow, hhigh⟩ := toNat_of_isDigit hdigit
    exact hvalues c (mem_block hlow hhigh) n h
  · rintro ⟨hn, hc⟩
    rw [← value?_toLower, hc, value?_digit hn]

theorem decode_cons_eq_some_iff :
    decode (c :: d :: cs) = some bytes ↔
      ∃ hi lo rest, value? c = some hi ∧ value? d = some lo ∧ decode cs = some rest ∧
        bytes = UInt8.ofNat (16 * hi + lo) :: rest := by
  rw [decode]
  cases value? c <;> cases value? d <;> simp [eq_comm (a := bytes)]

theorem decode_congr :
    ∀ {cs ds}, List.Forall₂ (fun c d => value? c = value? d) cs ds → decode cs = decode ds
  | _, _, .nil => rfl
  | _, _, .cons _ .nil => rfl
  | _, _, .cons hc (.cons hd h) => by rw [decode, decode, hc, hd, decode_congr h]

theorem length_encode (bytes : List UInt8) : (encode bytes).length = 2 * bytes.length := by
  induction bytes with
  | nil => rfl
  | cons b bytes ih =>
    rw [encode, List.flatMap_cons, List.length_append, ← encode, ih, List.length_cons]
    exact Nat.add_comm ..

theorem decode_encode (bytes : List UInt8) : decode (encode bytes) = some bytes := by
  induction bytes with
  | nil => rfl
  | cons b bytes ih =>
    have hhigh : b.toNat / 16 < 16 := Nat.div_lt_of_lt_mul b.toNat_lt
    have hlow : b.toNat % 16 < 16 := Nat.mod_lt _ (by decide)
    have hbyte : UInt8.ofNat (16 * (b.toNat / 16) + b.toNat % 16) = b := by
      rw [Nat.div_add_mod, UInt8.ofNat_toNat]
    refine decode_cons_eq_some_iff.2 ⟨_, _, _, value?_digit hhigh, value?_digit hlow, ih, ?_⟩
    rw [hbyte]

/-- Each byte stands as two digits, the greater one first. -/
inductive Spells : List Char → List UInt8 → Prop where
  | nil : Spells [] []
  | cons {c d : Char} {hi lo : Nat} {cs : List Char} {b : UInt8} {bytes : List UInt8}
      (hhi : value? c = some hi) (hlo : value? d = some lo) (hb : b.toNat = 16 * hi + lo)
      (h : Spells cs bytes) :
      Spells (c :: d :: cs) (b :: bytes)

theorem byte_eq_iff {b : UInt8} {hi lo : Nat} (hhi : hi < 16) (hlo : lo < 16) :
    b = UInt8.ofNat (16 * hi + lo) ↔ b.toNat = 16 * hi + lo := by
  rw [← UInt8.toNat_inj,
    UInt8.toNat_ofNat_of_lt' (show 16 * hi + lo < UInt8.size by simp only [UInt8.size]; omega)]

theorem decode_eq_some_iff : decode cs = some bytes ↔ Spells cs bytes := by
  constructor
  · induction cs using decode.induct generalizing bytes with
    | case1 =>
      rintro ⟨⟩
      exact .nil
    | case2 c => nofun
    | case3 c d cs hi lo hd hc ih =>
      intro h
      obtain ⟨hi, lo, rest, hc, hd, hrest, rfl⟩ := decode_cons_eq_some_iff.1 h
      refine .cons hc hd ?_ (ih hrest)
      exact (byte_eq_iff (value?_eq_some_iff.1 hc).1 (value?_eq_some_iff.1 hd).1).1 rfl
    | case4 c d cs hnone =>
      intro h
      obtain ⟨hi, lo, rest, hc, hd, -, -⟩ := decode_cons_eq_some_iff.1 h
      exact absurd hd (hnone hi lo hc)
  · intro h
    induction h with
    | nil => rfl
    | cons hhi hlo hb _ ih =>
      refine decode_cons_eq_some_iff.2 ⟨_, _, _, hhi, hlo, ih, ?_⟩
      rw [(byte_eq_iff (value?_eq_some_iff.1 hhi).1 (value?_eq_some_iff.1 hlo).1).2 hb]

theorem Spells.isDigit (h : Spells cs bytes) : ∀ c ∈ cs, isDigit c = true := by
  induction h with
  | nil => simp
  | cons hhi hlo _ _ ih =>
    exact List.forall_mem_cons.2
      ⟨by simp [Hex.isDigit, hhi], List.forall_mem_cons.2 ⟨by simp [Hex.isDigit, hlo], ih⟩⟩

theorem Spells.length_eq (h : Spells cs bytes) : cs.length = 2 * bytes.length := by
  induction h with
  | nil => rfl
  | cons _ _ _ _ ih =>
    simp only [List.length_cons, ih]
    omega

/-- Digits by twos denote bytes, whichever digits they are. -/
theorem exists_spells_iff :
    (∃ bytes, Spells cs bytes) ↔ (∀ c ∈ cs, isDigit c = true) ∧ cs.length % 2 = 0 := by
  constructor
  · rintro ⟨bytes, h⟩
    exact ⟨h.isDigit, by rw [h.length_eq, Nat.mul_mod_right]⟩
  · rintro ⟨hdigits, heven⟩
    induction cs using decode.induct with
    | case1 => exact ⟨[], .nil⟩
    | case2 c => cases heven
    | case3 c d cs hi lo hd hc ih =>
      simp only [List.forall_mem_cons] at hdigits
      obtain ⟨bytes, hbytes⟩ := ih hdigits.2.2 (by simpa [Nat.add_assoc] using heven)
      have hhi := (value?_eq_some_iff.1 hc).1
      have hlo := (value?_eq_some_iff.1 hd).1
      exact ⟨_, .cons hc hd ((byte_eq_iff hhi hlo).1 rfl) hbytes⟩
    | case4 c d cs hnone =>
      simp only [List.forall_mem_cons] at hdigits
      obtain ⟨hi, hc⟩ := Option.isSome_iff_exists.1 hdigits.1
      obtain ⟨lo, hd⟩ := Option.isSome_iff_exists.1 hdigits.2.1
      exact absurd hd (hnone hi lo hc)

/-- In lower case, digits that denote bytes are what is written of these bytes. -/
theorem spells_iff_map_toLower : Spells cs bytes ↔ cs.map Char.toLower = encode bytes := by
  constructor
  · intro h
    induction h with
    | nil => rfl
    | @cons c d hi lo cs b bytes hhi hlo hb _ ih =>
      obtain ⟨-, hc⟩ := value?_eq_some_iff.1 hhi
      obtain ⟨hlt, hd⟩ := value?_eq_some_iff.1 hlo
      have hhigh : b.toNat / 16 = hi := by omega
      have hlow : b.toNat % 16 = lo := by omega
      have hb : encode (b :: bytes) = digit hi :: digit lo :: encode bytes := by
        rw [encode, List.flatMap_cons, ofByte, hhigh, hlow]
        rfl
      rw [List.map_cons, List.map_cons, ih, hc, hd, hb]
  · intro h
    have hvalues : List.Forall₂ (fun c d => value? c = value? d) cs (cs.map Char.toLower) :=
      List.forall₂_map_right_iff.2 (List.forall₂_same.2 fun c _ => (value?_toLower c).symm)
    rw [← decode_eq_some_iff, decode_congr hvalues, h, decode_encode]

end ProposalVetting.Text.Hex
