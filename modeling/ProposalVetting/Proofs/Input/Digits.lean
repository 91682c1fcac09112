import ProposalVetting.Input
import ProposalVetting.Proofs.Text.Blank
import ProposalVetting.Proofs.Text.Hex

namespace ProposalVetting.Input
open Text

variable {α : Type} {p : α → Bool} {xs before : List α} {x : α} {c : Char}
  {cs t mark digits : List Char} {b : UInt8} {bs bytes : List UInt8}

/-- A value is what the rules say when each rule that applies gives the value and some rule
applies. -/
theorem eq_iff_of_rules {Rule : α → Prop} {v r : α} (hgives : ∀ r, Rule r → v = r)
    (happlies : ∃ r, Rule r) :
    v = r ↔ Rule r := by
  refine ⟨fun h => ?_, hgives r⟩
  obtain ⟨r', hr'⟩ := happlies
  rwa [← h, hgives r' hr']

/-- `0x` or `0X` in front is gone, and at most one. -/
inductive Unmarked : List Char → List Char → Prop where
  | marked {x : Char} {rest : List Char} (h : x = 'x' ∨ x = 'X') : Unmarked ('0' :: x :: rest) rest
  | bare {cs : List Char} (h : ∀ x rest, x = 'x' ∨ x = 'X' → cs ≠ '0' :: x :: rest) : Unmarked cs cs

theorem unmarked_stripMark (cs : List Char) : Unmarked cs (stripMark cs) := by
  fun_cases stripMark cs with
  | case1 rest => exact .marked (.inl rfl)
  | case2 rest => exact .marked (.inr rfl)
  | case3 _ hlower hupper =>
    refine .bare fun x rest hx heq => ?_
    rcases hx with rfl | rfl
    · exact hlower rest heq
    · exact hupper rest heq

theorem unmarked_iff : Unmarked cs t ↔ t = stripMark cs := by
  refine ⟨fun h => ?_, fun h => h ▸ unmarked_stripMark cs⟩
  have hstrip := unmarked_stripMark cs
  cases h with
  | marked h => rcases h with rfl | rfl <;> rfl
  | bare h =>
    generalize stripMark cs = u at hstrip
    cases hstrip with
    | marked hx => exact absurd rfl (h _ _ hx)
    | bare => rfl

/-- Behind digits alone there is no mark to remove. -/
theorem stripMark_of_isDigit (h : ∀ c ∈ cs, Hex.isDigit c = true) : stripMark cs = cs := by
  refine (unmarked_iff.1 (.bare ?_)).symm
  rintro x rest hx rfl
  have hdigit := h x (by simp)
  rcases hx with rfl | rfl <;> cases hdigit

/-- What may stand in front of digits. -/
def marks : List (List Char) := [[], ['0', 'x'], ['0', 'X']]

theorem Unmarked.exists_mark (h : Unmarked cs t) : ∃ mark ∈ marks, cs = mark ++ t := by
  cases h with
  | marked hx => rcases hx with rfl | rfl <;> simp [marks]
  | bare => exact ⟨[], List.mem_cons_self, rfl⟩

theorem stripMark_append (hmark : mark ∈ marks) (h : ∀ c ∈ digits, Hex.isDigit c = true) :
    stripMark (mark ++ digits) = digits := by
  simp only [marks, List.mem_cons, List.not_mem_nil, or_false] at hmark
  rcases hmark with rfl | rfl | rfl
  · exact stripMark_of_isDigit h
  · rfl
  · rfl

theorem not_isBlank_of_isDigit (h : Hex.isDigit c = true) : isBlank c = false := by
  obtain ⟨hlow, hhigh⟩ := Hex.toNat_of_isDigit h
  simp only [isBlank, Bool.or_eq_false_iff, Bool.and_eq_false_iff, decide_eq_false_iff_not,
    beq_eq_false_iff_ne, ne_eq]
  omega

theorem not_isBlank_of_mem_append (hmark : mark ∈ marks) (h : ∀ c ∈ digits, Hex.isDigit c = true) :
    ∀ c ∈ mark ++ digits, isBlank c = false := by
  intro c hc
  rcases List.mem_append.1 hc with hc | hc
  · have hmarks : ∀ mark ∈ marks, ∀ c ∈ mark, isBlank c = false := by simp [marks, isBlank]
    exact hmarks mark hmark c hc
  · exact not_isBlank_of_isDigit (h c hc)

/-- `x` is the first element that `p` does not hold of, and `before` stands in front of it. -/
structure FirstForeign (p : α → Bool) (xs before : List α) (x : α) : Prop where
  found : before ++ [x] <+: xs
  known : ∀ y ∈ before, p y = true
  foreign : p x = false

theorem firstForeign_cons_of_neg {y : α} (hx : p x = false) :
    FirstForeign p (x :: xs) before y ↔ before = [] ∧ y = x := by
  constructor
  · rintro ⟨hfound, hknown, -⟩
    cases before with
    | nil => exact ⟨rfl, (List.cons_prefix_cons.1 hfound).1⟩
    | cons z rest =>
      obtain ⟨rfl, -⟩ := List.cons_prefix_cons.1 hfound
      rw [hknown z List.mem_cons_self] at hx
      cases hx
  · rintro ⟨rfl, rfl⟩
    exact ⟨⟨xs, rfl⟩, by simp, hx⟩

theorem firstForeign_cons_of_pos {y : α} (hx : p x = true) :
    FirstForeign p (x :: xs) before y ↔ ∃ rest, before = x :: rest ∧ FirstForeign p xs rest y := by
  constructor
  · rintro ⟨hfound, hknown, hforeign⟩
    cases before with
    | nil =>
      obtain ⟨rfl, -⟩ := List.cons_prefix_cons.1 hfound
      rw [hx] at hforeign
      cases hforeign
    | cons z rest =>
      obtain ⟨rfl, hrest⟩ := List.cons_prefix_cons.1 hfound
      exact ⟨rest, rfl, hrest, (List.forall_mem_cons.1 hknown).2, hforeign⟩
  · rintro ⟨rest, rfl, hfound, hknown, hforeign⟩
    exact ⟨List.cons_prefix_cons.2 ⟨rfl, hfound⟩, List.forall_mem_cons.2 ⟨hx, hknown⟩, hforeign⟩

theorem FirstForeign.mem (h : FirstForeign p xs before x) : x ∈ xs := h.found.subset (by simp)

theorem exists_firstForeign (h : ¬ ∀ x ∈ xs, p x = true) :
    ∃ before x, FirstForeign p xs before x := by
  induction xs with
  | nil => exact absurd (by simp) h
  | cons x xs ih =>
    rcases hx : p x with _ | _
    · exact ⟨[], x, (firstForeign_cons_of_neg hx).2 ⟨rfl, rfl⟩⟩
    · obtain ⟨before, y, hy⟩ := ih fun hall => h (List.forall_mem_cons.2 ⟨hx, hall⟩)
      exact ⟨x :: before, y, (firstForeign_cons_of_pos hx).2 ⟨before, rfl, hy⟩⟩

theorem FirstForeign.findIdx?_eq (h : FirstForeign p xs before x) :
    (xs.findIdx? fun x => !p x) = some before.length := by
  obtain ⟨behind, rfl⟩ := h.found
  have hnone : (before.findIdx? fun x => !p x) = none :=
    List.findIdx?_eq_none_iff.2 fun y hy => by simp [h.known y hy]
  simp [List.findIdx?_append, List.findIdx?_cons, hnone, h.foreign]

theorem FirstForeign.getElem?_length (h : FirstForeign p xs before x) :
    xs[before.length]? = some x := by
  obtain ⟨behind, rfl⟩ := h.found
  simp

theorem firstNonHex_eq_none_iff {n : Nat} :
    firstNonHex n t = none ↔ ∀ c ∈ t, Hex.isDigit c = true := by
  induction t generalizing n with
  | nil => simp [firstNonHex]
  | cons c t ih =>
    rw [firstNonHex, List.forall_mem_cons]
    split
    · next hc => rw [ih, and_iff_right hc]
    · next hc => simp [hc]

theorem length_utf8_cons (c : Char) (cs : List Char) :
    (utf8 (c :: cs)).length = c.utf8Size + (utf8 cs).length := by
  rw [utf8, List.flatMap_cons, List.length_append, String.length_utf8EncodeChar]
  rfl

theorem firstNonHex_eq_some_iff {n i : Nat} :
    firstNonHex n t = some (c, i) ↔
      ∃ before, FirstForeign Hex.isDigit t before c ∧ i = n + (utf8 before).length := by
  induction t generalizing n with
  | nil =>
    constructor
    · nofun
    · rintro ⟨before, h, -⟩
      cases h.mem
  | cons d t ih =>
    rw [firstNonHex]
    split
    · next hd =>
      simp only [ih, firstForeign_cons_of_pos hd]
      constructor
      · rintro ⟨before, h, rfl⟩
        refine ⟨d :: before, ⟨before, rfl, h⟩, ?_⟩
        rw [length_utf8_cons, Nat.add_assoc]
      · rintro ⟨_, ⟨before, rfl, h⟩, rfl⟩
        refine ⟨before, h, ?_⟩
        rw [length_utf8_cons, Nat.add_assoc]
    · next hd =>
      simp only [firstForeign_cons_of_neg (eq_false_of_ne_true hd)]
      constructor
      · rintro ⟨⟩
        exact ⟨[], ⟨rfl, rfl⟩, rfl⟩
      · rintro ⟨_, ⟨rfl, rfl⟩, rfl⟩
        rfl

theorem utf8_of_isDigit (h : ∀ c ∈ cs, Hex.isDigit c = true) :
    utf8 cs = cs.map fun c => UInt8.ofNat c.toNat := by
  induction cs with
  | nil => rfl
  | cons c cs ih =>
    obtain ⟨hc, hcs⟩ := List.forall_mem_cons.1 h
    have hascii : c.val.toNat ≤ 0x7f :=
      Nat.le_trans (Nat.le_of_lt_succ (Hex.toNat_of_isDigit hc).2) (by decide)
    rw [utf8, List.flatMap_cons, ← utf8, ih hcs, String.utf8EncodeChar, if_pos hascii]
    rfl

/-- The character that has the number of a byte. -/
def byteChar (b : UInt8) : Char := Char.ofNat b.toNat

theorem toNat_byteChar (b : UInt8) : (byteChar b).toNat = b.toNat := by
  have hvalid : b.toNat.isValidChar := .inl (Nat.lt_trans b.toNat_lt (by decide))
  rw [byteChar, Char.ofNat, dif_pos hvalid]
  rfl

theorem map_byteChar_utf8 (h : ∀ c ∈ cs, Hex.isDigit c = true) : (utf8 cs).map byteChar = cs := by
  rw [utf8_of_isDigit h, List.map_map]
  refine (List.map_congr_left fun c hc => ?_).trans (List.map_id cs)
  have hbyte : c.toNat < 256 := Nat.lt_trans (Hex.toNat_of_isDigit (h c hc)).2 (by decide)
  simp [byteChar, Nat.mod_eq_of_lt hbyte]

/-- A character of several bytes has none that is a digit. -/
theorem exists_not_isDigit_of_lt (h : 0x7f < c.val.toNat) :
    ∃ b ∈ String.utf8EncodeChar c, Hex.isDigit (byteChar b) = false := by
  have hlast : UInt8.ofNat (c.val.toNat % 0x40 + 0x80) ∈ String.utf8EncodeChar c := by
    unfold String.utf8EncodeChar
    dsimp only
    split_ifs
    · omega
    all_goals simp
  refine ⟨_, hlast, eq_false_of_ne_true fun hdigit => ?_⟩
  have hhigh := (Hex.toNat_of_isDigit hdigit).2
  rw [toNat_byteChar, UInt8.toNat_ofNat_of_lt' (by simp only [UInt8.size]; omega)] at hhigh
  omega

theorem forall_isDigit_utf8_iff :
    (∀ b ∈ utf8 cs, Hex.isDigit (byteChar b) = true) ↔ ∀ c ∈ cs, Hex.isDigit c = true := by
  constructor
  · intro h c hc
    have hsub : ∀ b ∈ String.utf8EncodeChar c, b ∈ utf8 cs :=
      fun b hb => List.mem_flatMap.2 ⟨c, hc, hb⟩
    have hascii : c.val.toNat ≤ 0x7f := by
      by_contra hlt
      obtain ⟨b, hb, hforeign⟩ := exists_not_isDigit_of_lt (Nat.lt_of_not_le hlt)
      rw [h b (hsub b hb)] at hforeign
      cases hforeign
    have hbyte : UInt8.ofNat c.val.toNat ∈ String.utf8EncodeChar c := by
      rw [String.utf8EncodeChar, if_pos hascii]
      exact List.mem_cons_self
    have hchar : byteChar (UInt8.ofNat c.val.toNat) = c := by
      rw [byteChar, UInt8.toNat_ofNat_of_lt' (by simp only [UInt8.size]; omega)]
      exact Char.ofNat_toNat c
    rw [← hchar]
    exact h _ (hsub _ hbyte)
  · intro h b hb
    apply h
    rw [← map_byteChar_utf8 h]
    exact List.mem_map_of_mem hb

/-- No character of several bytes is mistaken for digits. -/
theorem spells_utf8_iff : Hex.Spells ((utf8 cs).map byteChar) bytes ↔ Hex.Spells cs bytes := by
  constructor
  · intro h
    have hdigits := forall_isDigit_utf8_iff.1 fun b hb => h.isDigit _ (List.mem_map_of_mem hb)
    rwa [map_byteChar_utf8 hdigits] at h
  · intro h
    rwa [map_byteChar_utf8 h.isDigit]

/-- What bytes of text are decoded to, or what is wrong with them: their number, then the first that
is no digit. -/
inductive Decoded (bs : List UInt8) : Except InputError (List UInt8) → Prop where
  | oddLength (h : bs.length % 2 = 1) : Decoded bs (.error .oddLength)
  | foreign {before : List UInt8} {b : UInt8} (heven : bs.length % 2 = 0)
      (h : FirstForeign (fun b => Hex.isDigit (byteChar b)) bs before b) :
      Decoded bs (.error (.invalidCharacter (byteChar b) before.length))
  | bytes {bytes : List UInt8} (h : Hex.Spells (bs.map byteChar) bytes) : Decoded bs (.ok bytes)

theorem Decoded.hexBytes_eq {r : Except InputError (List UInt8)} (h : Decoded bs r) :
    hexBytes bs = r := by
  cases h with
  | oddLength hodd => simp only [hexBytes, List.length_map, if_pos hodd]
  | @foreign before b heven hforeign =>
    have hodd : ¬ bs.length % 2 = 1 := by omega
    have hfind : ((bs.map fun b => Char.ofNat b.toNat).findIdx? fun c => !Hex.isDigit c) =
        some before.length := by
      rw [List.findIdx?_map]
      exact hforeign.findIdx?_eq
    have hfound : (bs.map fun b => Char.ofNat b.toNat).getD before.length ' ' = byteChar b := by
      rw [List.getD_eq_getElem?_getD, List.getElem?_map, hforeign.getElem?_length]
      rfl
    simp only [hexBytes, List.length_map, if_neg hodd, hfind, hfound]
  | @bytes bytes hbytes =>
    have hodd : ¬ bs.length % 2 = 1 := by
      have hlength := hbytes.length_eq
      rw [List.length_map] at hlength
      omega
    have hfind : ((bs.map fun b => Char.ofNat b.toNat).findIdx? fun c => !Hex.isDigit c) = none :=
      List.findIdx?_eq_none_iff.2 fun c hc => by rw [hbytes.isDigit c hc]; rfl
    have hdecode : Hex.decode (bs.map fun b => Char.ofNat b.toNat) = some bytes :=
      Hex.decode_eq_some_iff.2 hbytes
    simp only [hexBytes, List.length_map, if_neg hodd, hfind, hdecode]

/-- Whatever the bytes, one of the rules applies. -/
theorem exists_decoded (bs : List UInt8) : ∃ r, Decoded bs r := by
  rcases Nat.mod_two_eq_zero_or_one bs.length with heven | hodd
  · by_cases hdigits : ∀ b ∈ bs, Hex.isDigit (byteChar b) = true
    · obtain ⟨bytes, hbytes⟩ :=
        Hex.exists_spells_iff.2 ⟨List.forall_mem_map.2 hdigits, by rwa [List.length_map]⟩
      exact ⟨_, .bytes hbytes⟩
    · obtain ⟨before, b, hforeign⟩ := exists_firstForeign hdigits
      exact ⟨_, .foreign heven hforeign⟩
  · exact ⟨_, .oddLength hodd⟩

theorem hexBytes_eq_iff {r : Except InputError (List UInt8)} : hexBytes bs = r ↔ Decoded bs r :=
  eq_iff_of_rules (fun _ => Decoded.hexBytes_eq) (exists_decoded bs)

/-- The bytes of digits stand for the digits themselves. -/
theorem hexBytes_utf8 (h : Hex.Spells cs bytes) : hexBytes (utf8 cs) = .ok bytes :=
  hexBytes_eq_iff.2 (.bytes (spells_utf8_iff.2 h))

end ProposalVetting.Input
