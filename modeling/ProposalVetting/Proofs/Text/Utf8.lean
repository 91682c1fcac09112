import ProposalVetting.Input
import Mathlib.Data.Char
import Mathlib.Data.String.Basic

namespace ProposalVetting.Input

/-- The greater digits of a number to the base 64 are those of its 64th part. -/
theorem div_digits (n : Nat) : n / 4096 = n / 64 / 64 ∧ n / 262144 = n / 64 / 64 / 64 := by
  constructor <;> simp only [Nat.div_div_eq_div_mul]

/-- A smaller character has the smaller bytes, whatever follows. -/
theorem utf8EncodeChar_append_lt {c d : Char} (h : c < d) (xs ys : List UInt8) :
    String.utf8EncodeChar c ++ xs < String.utf8EncodeChar d ++ ys := by
  have hlt : c.val.toNat < d.val.toNat := h
  have hmax : d.val.toNat < 0x110000 := by
    rcases d.valid with hd | ⟨-, hd⟩
    · exact Nat.lt_trans hd (by decide)
    · exact hd
  unfold String.utf8EncodeChar
  dsimp only
  rw [(div_digits c.val.toNat).1, (div_digits c.val.toNat).2, (div_digits d.val.toNat).1,
    (div_digits d.val.toNat).2]
  generalize c.val.toNat = m at hlt
  generalize d.val.toNat = n at hlt hmax
  -- the leading byte tells how many bytes there are, so only characters of one length need a look
  -- at the others
  split_ifs <;>
    simp only [List.cons_append, List.nil_append, List.cons_lt_cons_iff, UInt8.lt_iff_toNat_lt,
      ← UInt8.toNat_inj, UInt8.toNat_ofNat'] <;> omega

theorem utf8EncodeChar_pos (c : Char) : String.utf8EncodeChar c ≠ [] := by
  unfold String.utf8EncodeChar
  dsimp only
  split_ifs <;> simp

theorem utf8_lt_of_lt {xs ys : List Char} (h : xs < ys) : utf8 xs < utf8 ys := by
  induction h with
  | @nil c ys =>
    obtain ⟨b, bs, hbs⟩ := List.exists_cons_of_ne_nil (utf8EncodeChar_pos c)
    simp only [utf8, List.flatMap_nil, List.flatMap_cons, hbs, List.cons_append]
    exact List.nil_lt_cons _ _
  | rel h => exact utf8EncodeChar_append_lt h _ _
  | cons _ ih => exact List.append_left_lt ih

/-- The order of texts is the order of their bytes. -/
theorem lt_iff_utf8_lt {s t : String} : s < t ↔ utf8 s.toList < utf8 t.toList := by
  rw [String.lt_iff_toList_lt]
  refine ⟨utf8_lt_of_lt, fun h => ?_⟩
  -- were it not so, the texts would be equal or stand the other way round, and so would their bytes
  by_contra hle
  rcases lt_trichotomy s t with hlt | rfl | hlt
  · exact hle hlt
  · exact List.lt_irrefl _ h
  · exact List.lt_asymm h (utf8_lt_of_lt hlt)

end ProposalVetting.Input
