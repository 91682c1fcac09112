import ProposalVetting.Proofs.Json.Document
import ProposalVetting.Proofs.Json.Numeral
import ProposalVetting.Proofs.Json.Spacing
import ProposalVetting.Proofs.Json.Text

namespace ProposalVetting.Json
open Reading

mutual

/-- The tree of a value that is written out in full. -/
def reading : Json → Reading
  | .null => .null
  | .bool b => .bool b
  | .number n => .number (some n)
  | .text s => .text (some s)
  | .array items => .array (itemReadings items)
  | .object members => .object (memberReadings members)

def itemReadings : List Json → Items
  | [] => .closed
  | v :: items => .item (reading v) (itemReadings items)

def memberReadings : List (String × Json) → Members
  | [] => .closed
  | (k, v) :: members => .member (some k) (reading v) (memberReadings members)

end

mutual

/-- All numbers of the value are natural numbers of 64 bits. -/
def Exact : Json → Prop
  | .number (.integer v) => 0 ≤ v ∧ v < UInt64.size
  | .number (.float ..) => False
  | .array items => ExactItems items
  | .object members => ExactMembers members
  | _ => True

def ExactItems : List Json → Prop
  | [] => True
  | v :: items => Exact v ∧ ExactItems items

def ExactMembers : List (String × Json) → Prop
  | [] => True
  | (_, v) :: members => Exact v ∧ ExactMembers members

end

namespace Blank

variable {cs ds : List Char}

theorem skipSpace_append (h : Blank cs) (ds : List Char) : skipSpace (cs ++ ds) = skipSpace ds :=
  List.dropWhile_append_of_pos h

/-- No number goes on with blank space. -/
theorem ends_append (h : Blank cs) (hds : Numeral.Ends ds) : Numeral.Ends (cs ++ ds) := by
  cases cs with
  | nil => exact hds
  | cons c cs =>
    have hc : isSpace c = true := h c List.mem_cons_self
    have hspace : c = ' ' ∨ c = '\n' ∨ c = '\t' ∨ c = '\r' := by simpa [isSpace, or_assoc] using hc
    intro d hd
    obtain rfl : c = d := by simpa using hd
    rcases hspace with rfl | rfl | rfl | rfl <;> decide

theorem readValue_append (h : Blank cs) (fuel : Nat) (ds : List Char) :
    readValue fuel (cs ++ ds) = readValue fuel ds := by
  cases fuel with
  | zero => rfl
  | succ fuel => rw [readValue, readValue, h.skipSpace_append]

theorem readItems_append (h : Blank cs) (fuel : Nat) (first : Bool) (ds : List Char) :
    readItems fuel first (cs ++ ds) = readItems fuel first ds := by
  cases fuel with
  | zero => rfl
  | succ fuel => rw [readItems, readItems, h.skipSpace_append]

theorem readMembers_append (h : Blank cs) (fuel : Nat) (first : Bool) (ds : List Char) :
    readMembers fuel first (cs ++ ds) = readMembers fuel first ds := by
  cases fuel with
  | zero => rfl
  | succ fuel => rw [readMembers, readMembers, h.skipSpace_append]

theorem readMember_append (h : Blank cs) (fuel : Nat) (comma : Bool) (ds : List Char) :
    readMember fuel comma (cs ++ ds) = readMember fuel comma ds := by
  cases fuel with
  | zero => rfl
  | succ fuel => rw [readMember, readMember, h.readValue_append]

end Blank

variable {s : Spacing} {depth fuel n : Nat} {c : Char} {rest : List Char}

theorem skipSpace_cons (h : isSpace c = false) (rest : List Char) :
    skipSpace (c :: rest) = c :: rest :=
  List.dropWhile_cons_of_neg (by simp [h])

theorem isSpace_of_isDigit (hc : Numeral.isDigit c = true) : isSpace c = false := by
  have hother : ∀ d, Numeral.isDigit d = false → c ≠ d := fun d => Numeral.ne_of_isDigit hc
  simp [isSpace, hother ' ' rfl, hother '\n' rfl, hother '\t' rfl, hother '\r' rfl]

theorem readValue_text (t : String) (fuel : Nat) (rest : List Char) :
    readValue (fuel + 1) (Text.write t ++ rest) = (.text (some t), rest) := by
  simp only [Text.write, List.cons_append, List.append_assoc, List.nil_append]
  rw [readValue, skipSpace_cons rfl]
  exact ofText_write t rest

theorem readValue_toDigits (hn : n < UInt64.size) (hrest : Numeral.Ends rest) (fuel : Nat) :
    readValue (fuel + 1) (Nat.toDigits 10 n ++ rest) = (.number (some (.integer n)), rest) := by
  have hnumber := ofNumber_toDigits hn hrest
  obtain ⟨c, cs, hcs, hdigit⟩ := Numeral.exists_toDigits_eq_cons n
  have hother : ∀ d, Numeral.isDigit d = false → c ≠ d := fun d => Numeral.ne_of_isDigit hdigit
  rw [hcs, List.cons_append] at hnumber ⊢
  rw [readValue, skipSpace_cons (isSpace_of_isDigit hdigit)]
  simp only [hother '"' rfl, hother '[' rfl, hother '\x7b' rfl, hother 'n' rfl, hother 't' rfl,
    hother 'f' rfl, hdigit, or_true, if_true, if_false, hnumber]

section Steps

variable {v : Reading} {items : Items} {members : Members} {cs after : List Char}

theorem readValue_bracket (h : readItems fuel true cs = (items, rest)) :
    readValue (fuel + 1) ('[' :: cs) = (.array items, rest) := by
  have hread : readValue (fuel + 1) ('[' :: cs) =
      (.array (readItems fuel true cs).1, (readItems fuel true cs).2) := by
    rw [readValue, skipSpace_cons rfl]
    rfl
  rw [hread, h]

theorem readValue_brace (h : readMembers fuel true cs = (members, rest)) :
    readValue (fuel + 1) ('\x7b' :: cs) = (.object members, rest) := by
  have hread : readValue (fuel + 1) ('\x7b' :: cs) =
      (.object (readMembers fuel true cs).1, (readMembers fuel true cs).2) := by
    rw [readValue, skipSpace_cons rfl]
    rfl
  rw [hread, h]

theorem readItems_closed (fuel : Nat) (first : Bool) (rest : List Char) :
    readItems (fuel + 1) first (']' :: rest) = (.closed, rest) := by
  rw [readItems, skipSpace_cons rfl]
  rfl

theorem readItems_first (hspace : isSpace c = false) (hclose : c ≠ ']')
    (hv : readValue fuel (c :: cs) = (v, after))
    (hitems : readItems fuel false after = (items, rest)) :
    readItems (fuel + 1) true (c :: cs) = (.item v items, rest) := by
  rw [readItems, skipSpace_cons hspace]
  simp only [hclose, true_or, if_true, if_false, hv, hitems]

theorem readItems_comma (hv : readValue fuel cs = (v, after))
    (hitems : readItems fuel false after = (items, rest)) :
    readItems (fuel + 1) false (',' :: cs) = (.item v items, rest) := by
  have hread : readItems (fuel + 1) false (',' :: cs) =
      (.item (readValue fuel cs).1 (readItems fuel false (readValue fuel cs).2).1,
        (readItems fuel false (readValue fuel cs).2).2) := by
    rw [readItems, skipSpace_cons rfl]
    rfl
  rw [hread, hv]
  dsimp only
  rw [hitems]

theorem readMembers_closed (fuel : Nat) (first : Bool) (rest : List Char) :
    readMembers (fuel + 1) first ('\x7d' :: rest) = (.closed, rest) := by
  rw [readMembers, skipSpace_cons rfl]
  rfl

theorem readMembers_first (k : String) (cs : List Char) :
    readMembers (fuel + 1) true (Text.write k ++ cs) =
      readMember fuel false (Text.write k ++ cs) := by
  simp only [Text.write, List.cons_append]
  rw [readMembers, skipSpace_cons rfl]
  rfl

theorem readMembers_comma (cs : List Char) :
    readMembers (fuel + 1) false (',' :: cs) = readMember fuel true cs := by
  rw [readMembers, skipSpace_cons rfl]
  rfl

theorem readMember_write {k : String} {comma : Bool} (hfuel : 0 < fuel)
    (hv : readValue fuel cs = (v, after))
    (hmembers : readMembers fuel false after = (members, rest)) :
    readMember (fuel + 1) comma (Text.write k ++ ':' :: cs) =
      (.member (some k) v members, rest) := by
  obtain ⟨n, rfl⟩ := Nat.exists_eq_add_one_of_ne_zero (Nat.ne_of_gt hfuel)
  rw [readMember, readValue_text]
  dsimp only
  rw [skipSpace_cons rfl]
  simp only [if_true, hv, hmembers]

end Steps

theorem exists_natural {x : Number} (h : Exact (.number x)) :
    ∃ n : Nat, n < UInt64.size ∧ x = .integer n := by
  cases x with
  | float => exact h.elim
  | integer v =>
    obtain ⟨hnonneg, hlt⟩ := h
    obtain ⟨n, rfl⟩ := Int.eq_ofNat_of_zero_le hnonneg
    exact ⟨n, Int.ofNat_lt.1 hlt, rfl⟩

/-- A written value begins with neither blank space nor a closing bracket. -/
theorem exists_spaced_eq_cons (s : Spacing) (depth : Nat) {v : Json} (hv : Exact v) :
    ∃ c cs, spaced s depth v = c :: cs ∧ isSpace c = false ∧ c ≠ ']' := by
  cases v with
  | null => exact ⟨_, _, by rw [spaced], rfl, by decide⟩
  | bool b => cases b <;> exact ⟨_, _, by rw [spaced], rfl, by decide⟩
  | text t => exact ⟨_, _, by rw [spaced]; rfl, rfl, by decide⟩
  | array items =>
    cases items with
    | nil => exact ⟨'[', _, by rw [spaced], rfl, by decide⟩
    | cons v items => exact ⟨'[', _, by rw [spaced]; rfl, rfl, by decide⟩
  | object members =>
    cases members with
    | nil => exact ⟨'\x7b', _, by rw [spaced], rfl, by decide⟩
    | cons m members => exact ⟨'\x7b', _, by rw [spaced]; rfl, rfl, by decide⟩
  | number x =>
    obtain ⟨n, -, rfl⟩ := exists_natural hv
    obtain ⟨c, cs, hcs, hdigit⟩ := Numeral.exists_toDigits_eq_cons n
    exact ⟨c, cs, by rw [spaced, Number.text_natural, hcs], isSpace_of_isDigit hdigit,
      Numeral.ne_of_isDigit hdigit rfl⟩

theorem ends_cons (hc : Numeral.isDigit c = false ∧ c ≠ '.' ∧ c ≠ 'e' ∧ c ≠ 'E') (cs : List Char) :
    Numeral.Ends (c :: cs) := by
  intro d hd
  obtain rfl : c = d := by simpa using hd
  exact hc

theorem ends_spacedItems (s : Spacing) (depth : Nat) (items : List Json) (rest : List Char) :
    Numeral.Ends (spacedItems s depth items ++ rest) := by
  cases items with
  | nil =>
    rw [spacedItems, List.append_assoc]
    exact (s.blank_line depth).ends_append (ends_cons (by decide) _)
  | cons v items =>
    rw [spacedItems]
    exact ends_cons (by decide) _

theorem ends_spacedMembers (s : Spacing) (depth : Nat) (members : List (String × Json))
    (rest : List Char) :
    Numeral.Ends (spacedMembers s depth members ++ rest) := by
  cases members with
  | nil =>
    rw [spacedMembers, List.append_assoc]
    exact (s.blank_line depth).ends_append (ends_cons (by decide) _)
  | cons m members =>
    rw [spacedMembers]
    exact ends_cons (by decide) _

theorem length_spacedItems_pos (s : Spacing) (depth : Nat) (items : List Json) :
    0 < (spacedItems s depth items).length := by
  cases items <;> rw [spacedItems] <;> simp

theorem length_spacedMembers_pos (s : Spacing) (depth : Nat) (members : List (String × Json)) :
    0 < (spacedMembers s depth members).length := by
  cases members <;> rw [spacedMembers] <;> simp

mutual

/-- Three units of fuel for each character are enough at every part of a written value. -/
theorem readValue_spaced (s : Spacing) (depth : Nat) :
    ∀ (v : Json) (fuel : Nat) (rest : List Char), Exact v →
      3 * (spaced s depth v).length ≤ fuel → Numeral.Ends rest →
      readValue fuel (spaced s depth v ++ rest) = (reading v, rest)
  | .null, fuel, rest, _, hfuel, _ => by
    rw [spaced] at hfuel ⊢
    obtain ⟨fuel, rfl⟩ := Nat.exists_eq_add_one_of_ne_zero (n := fuel) (by simp at hfuel; omega)
    rfl
  | .bool true, fuel, rest, _, hfuel, _ => by
    rw [spaced] at hfuel ⊢
    obtain ⟨fuel, rfl⟩ := Nat.exists_eq_add_one_of_ne_zero (n := fuel) (by simp at hfuel; omega)
    rfl
  | .bool false, fuel, rest, _, hfuel, _ => by
    rw [spaced] at hfuel ⊢
    obtain ⟨fuel, rfl⟩ := Nat.exists_eq_add_one_of_ne_zero (n := fuel) (by simp at hfuel; omega)
    rfl
  | .number x, fuel, rest, hv, hfuel, hrest => by
    obtain ⟨n, hn, rfl⟩ := exists_natural hv
    rw [spaced, Number.text_natural] at hfuel ⊢
    have hpos := Nat.length_toDigits_pos (n := n) (b := 10)
    obtain ⟨fuel, rfl⟩ := Nat.exists_eq_add_one_of_ne_zero (n := fuel) (by omega)
    exact readValue_toDigits hn hrest fuel
  | .text t, fuel, rest, _, hfuel, _ => by
    rw [spaced] at hfuel ⊢
    obtain ⟨fuel, rfl⟩ :=
      Nat.exists_eq_add_one_of_ne_zero (n := fuel) (by simp [Text.write] at hfuel; omega)
    exact readValue_text t fuel rest
  | .array [], fuel, rest, _, hfuel, _ => by
    rw [spaced] at hfuel ⊢
    obtain ⟨fuel, rfl⟩ := Nat.exists_eq_add_of_le' (show 2 ≤ fuel by simp at hfuel; omega)
    exact readValue_bracket (readItems_closed fuel true rest)
  | .array (v :: items), fuel, rest, hv, hfuel, _ => by
    obtain ⟨c, cs, hcs, hspace, hclose⟩ := exists_spaced_eq_cons s (depth + 1) hv.1
    have hpos := length_spacedItems_pos s depth items
    rw [spaced] at hfuel ⊢
    simp only [List.length_append, List.length_cons, List.cons_append, List.append_assoc] at hfuel ⊢
    obtain ⟨fuel, rfl⟩ := Nat.exists_eq_add_of_le' (show 2 ≤ fuel by omega)
    have hfirst :=
      readValue_spaced s (depth + 1) v fuel _ hv.1 (by omega) (ends_spacedItems s depth items rest)
    have hothers := readItems_spaced s depth items fuel rest hv.2 (by omega)
    rw [hcs, List.cons_append] at hfirst
    apply readValue_bracket
    rw [(s.blank_line (depth + 1)).readItems_append, hcs, List.cons_append]
    exact readItems_first hspace hclose hfirst hothers
  | .object [], fuel, rest, _, hfuel, _ => by
    rw [spaced] at hfuel ⊢
    obtain ⟨fuel, rfl⟩ := Nat.exists_eq_add_of_le' (show 2 ≤ fuel by simp at hfuel; omega)
    exact readValue_brace (readMembers_closed fuel true rest)
  | .object ((k, v) :: members), fuel, rest, hv, hfuel, _ => by
    have hpos := length_spacedMembers_pos s depth members
    rw [spaced] at hfuel ⊢
    simp only [List.length_append, List.length_cons, List.cons_append, List.append_assoc] at hfuel ⊢
    obtain ⟨fuel, rfl⟩ := Nat.exists_eq_add_of_le' (show 3 ≤ fuel by omega)
    have hfirst :=
      readValue_spaced s (depth + 1) v fuel _ hv.1 (by omega)
        (ends_spacedMembers s depth members rest)
    have hothers := readMembers_spaced s depth members fuel rest hv.2 (by omega)
    apply readValue_brace
    rw [(s.blank_line (depth + 1)).readMembers_append, readMembers_first]
    refine readMember_write (by omega) ?_ hothers
    rw [s.blank_gap.readValue_append]
    exact hfirst

theorem readItems_spaced (s : Spacing) (depth : Nat) :
    ∀ (items : List Json) (fuel : Nat) (rest : List Char), ExactItems items →
      3 * (spacedItems s depth items).length ≤ fuel →
      readItems fuel false (spacedItems s depth items ++ rest) = (itemReadings items, rest)
  | [], fuel, rest, _, hfuel => by
    rw [spacedItems] at hfuel ⊢
    obtain ⟨fuel, rfl⟩ := Nat.exists_eq_add_one_of_ne_zero (n := fuel) (by simp at hfuel; omega)
    rw [List.append_assoc, (s.blank_line depth).readItems_append]
    exact readItems_closed fuel false rest
  | v :: items, fuel, rest, hv, hfuel => by
    rw [spacedItems] at hfuel ⊢
    simp only [List.length_append, List.length_cons, List.cons_append, List.append_assoc] at hfuel ⊢
    obtain ⟨fuel, rfl⟩ := Nat.exists_eq_add_one_of_ne_zero (n := fuel) (by omega)
    have hfirst :=
      readValue_spaced s (depth + 1) v fuel _ hv.1 (by omega) (ends_spacedItems s depth items rest)
    have hothers := readItems_spaced s depth items fuel rest hv.2 (by omega)
    refine readItems_comma ?_ hothers
    rw [(s.blank_line (depth + 1)).readValue_append]
    exact hfirst

theorem readMembers_spaced (s : Spacing) (depth : Nat) :
    ∀ (members : List (String × Json)) (fuel : Nat) (rest : List Char), ExactMembers members →
      3 * (spacedMembers s depth members).length ≤ fuel →
      readMembers fuel false (spacedMembers s depth members ++ rest) =
        (memberReadings members, rest)
  | [], fuel, rest, _, hfuel => by
    rw [spacedMembers] at hfuel ⊢
    obtain ⟨fuel, rfl⟩ := Nat.exists_eq_add_one_of_ne_zero (n := fuel) (by simp at hfuel; omega)
    rw [List.append_assoc, (s.blank_line depth).readMembers_append]
    exact readMembers_closed fuel false rest
  | (k, v) :: members, fuel, rest, hv, hfuel => by
    rw [spacedMembers] at hfuel ⊢
    simp only [List.length_append, List.length_cons, List.cons_append, List.append_assoc] at hfuel ⊢
    obtain ⟨fuel, rfl⟩ := Nat.exists_eq_add_of_le' (show 2 ≤ fuel by omega)
    have hfirst :=
      readValue_spaced s (depth + 1) v fuel _ hv.1 (by omega)
        (ends_spacedMembers s depth members rest)
    have hothers := readMembers_spaced s depth members fuel rest hv.2 (by omega)
    rw [readMembers_comma, (s.blank_line (depth + 1)).readMember_append]
    refine readMember_write (by omega) ?_ hothers
    rw [s.blank_gap.readValue_append]
    exact hfirst

end

/-- The two written forms of a value. -/
def Written (v : Json) (document : String) : Prop := document = v.write ∨ document = v.writeIndented

theorem read_spaced (s : Spacing) {v : Json} (hv : Exact v) {rest : List Char}
    (hrest : Blank rest) :
    read (spaced s 0 v ++ rest) = (reading v, rest) := by
  have hends : Numeral.Ends rest := by
    simpa only [List.append_nil] using hrest.ends_append Numeral.ends_nil
  refine readValue_spaced s 0 v _ rest hv ?_ hends
  rw [List.length_append]
  omega

namespace Written

variable {α : Type} {decode : Reading → Result α} {v : Json} {document : String}

/-- Blank space behind a written form is left over. -/
theorem read_append (h : v.Written document) (hv : Exact v) {rest : List Char}
    (hrest : Blank rest) :
    read (document.toList ++ rest) = (reading v, rest) := by
  rcases h with rfl | rfl
  · rw [write, String.toList_ofList, compact_eq_spaced 0, read_spaced _ hv hrest]
  · rw [writeIndented, String.toList_ofList, indented_eq_spaced, read_spaced _ hv hrest]

/-- Decoding a written document is decoding the tree of its value, also with blank space behind. -/
theorem parse_append (h : v.Written document) (hv : Exact v) {space : String}
    (hspace : Blank space.toList) : Json.parse decode (document ++ space) = decode (reading v) := by
  have hread : Json.read (document ++ space).toList = (reading v, space.toList) := by
    rw [String.toList_append, h.read_append hv hspace]
  have hleft : skipSpace space.toList = [] := by
    rw [← List.append_nil space.toList, hspace.skipSpace_append]
    rfl
  exact parse_of_read hread hleft

theorem parse (h : v.Written document) (hv : Exact v) :
    Json.parse decode document = decode (reading v) := by
  have hspace : Blank "".toList := nofun
  rw [← String.append_empty (s := document)]
  exact h.parse_append hv hspace

end Written
end ProposalVetting.Json
