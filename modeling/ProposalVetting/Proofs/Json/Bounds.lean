import ProposalVetting.Json.Reading
import Mathlib.Tactic.SplitIfs

namespace ProposalVetting.Json

theorem Numeral.float?_ne_integer {n : Numeral} {v : Int} : n.float? ≠ some (.integer v) := by
  unfold Numeral.float?
  intro h
  dsimp only at h
  split at h
  · obtain ⟨x, -, h⟩ := Option.bind_eq_some_iff.1 h
    cases h
  · split_ifs at h
    · obtain ⟨x, -, h⟩ := Option.bind_eq_some_iff.1 h
      cases h
    · obtain ⟨x, -, h⟩ := Option.bind_eq_some_iff.1 h
      cases h
    · cases h

theorem Numeral.value?_lt {n : Numeral} {v : Int} (h : n.value? = some (.integer v)) :
    v < UInt64.size := by
  unfold Numeral.value? at h
  dsimp only at h
  split_ifs at h with hwhole hnegative hrange hsize
  · have hv := Number.integer.inj (Option.some.inj h)
    omega
  · exact absurd h float?_ne_integer
  · have hv := Number.integer.inj (Option.some.inj h)
    omega
  · exact absurd h float?_ne_integer
  · exact absurd h float?_ne_integer

mutual

/-- The whole numbers in the tree fit into 64 bits. -/
def Reading.Bounded : Reading → Prop
  | .number (some (.integer v)) => v < UInt64.size
  | .array is => is.Bounded
  | .object ms => ms.Bounded
  | _ => True

def Items.Bounded : Items → Prop
  | .item first rest => first.Bounded ∧ rest.Bounded
  | _ => True

def Members.Bounded : Members → Prop
  | .member _ value rest => value.Bounded ∧ rest.Bounded
  | _ => True

end

theorem bounded_ofNumber (cs : List Char) : (Reading.ofNumber cs).1.Bounded := by
  unfold Reading.ofNumber
  split
  · next n rest _ =>
    dsimp only
    cases h : n.value? with
    | none => trivial
    | some x =>
      cases x with
      | integer v => exact Numeral.value?_lt h
      | float => trivial
  · trivial

theorem bounded_ofText (cs : List Char) : (Reading.ofText cs).1.Bounded := by
  unfold Reading.ofText
  dsimp only
  split <;> trivial

theorem bounded_literal {r : Reading} (hr : r.Bounded) (word cs : List Char) :
    (Reading.literal r word cs).1.Bounded := by
  induction word generalizing cs with
  | nil => cases cs <;> exact hr
  | cons w word ih =>
    cases cs with
    | nil => trivial
    | cons c cs =>
      rw [Reading.literal]
      split
      · exact ih cs
      · trivial

/-- One level of the reader at a time: the induction is on the fuel, which all four parts share. -/
theorem bounded_readValue (fuel : Nat) :
    (∀ cs, (readValue fuel cs).1.Bounded) ∧ (∀ first cs, (readItems fuel first cs).1.Bounded) ∧
    (∀ first cs, (readMembers fuel first cs).1.Bounded) ∧
    ∀ comma cs, (readMember fuel comma cs).1.Bounded := by
  induction fuel with
  | zero => exact ⟨fun _ => trivial, fun _ _ => trivial, fun _ _ => trivial, fun _ _ => trivial⟩
  | succ fuel ih =>
    obtain ⟨hvalue, hitems, hmembers, hmember⟩ := ih
    refine ⟨fun cs => ?_, fun first cs => ?_, fun first cs => ?_, fun comma cs => ?_⟩
    · rw [readValue]
      split
      · trivial
      · dsimp only
        split_ifs
        · exact bounded_ofText _
        · exact hitems _ _
        · exact hmembers _ _
        · exact bounded_literal (r := .null) trivial _ _
        · exact bounded_literal (r := .bool true) trivial _ _
        · exact bounded_literal (r := .bool false) trivial _ _
        · exact bounded_ofNumber _
        · trivial
    · rw [readItems]
      split
      · trivial
      · dsimp only
        split_ifs
        · trivial
        · exact ⟨hvalue _, hitems _ _⟩
        · exact ⟨hvalue _, hitems _ _⟩
        · trivial
    · rw [readMembers]
      split
      · trivial
      · split_ifs
        · trivial
        · exact hmember _ _
        · exact hmember _ _
        · trivial
    · rw [readMember]
      split
      · split
        · exact ⟨trivial, trivial⟩
        · dsimp only
          split_ifs
          · exact ⟨hvalue _, hmembers _ _⟩
          · exact ⟨trivial, trivial⟩
      · trivial

theorem bounded_read (cs : List Char) : (read cs).1.Bounded := (bounded_readValue _).1 cs

end ProposalVetting.Json
