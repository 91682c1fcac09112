import ProposalVetting.Proofs.Failure
import ProposalVetting.Proofs.Json.Writing

namespace ProposalVetting.Json

variable {α σ : Type} {decode : Reading → Result α} {write : α → Json} {n : Nat} {as : List α}

theorem exact_natural (h : n < UInt64.size) : Exact (natural n) :=
  ⟨Int.natCast_nonneg n, Int.ofNat_lt.2 h⟩

theorem exact_array (h : ∀ a ∈ as, Exact (write a)) : Exact (.array (as.map write)) := by
  rw [Exact]
  induction as with
  | nil => trivial
  | cons a as ih => exact ⟨h a List.mem_cons_self, ih fun b hb => h b (List.mem_cons_of_mem _ hb)⟩

theorem exact_strings (texts : List String) : Exact (strings texts) :=
  exact_array fun _ _ => trivial

theorem exact_optional {x : Option α} (h : ∀ a ∈ x, Exact (write a)) :
    Exact (Json.optional write x) := by
  cases x with
  | none => trivial
  | some a => exact h a rfl

namespace Decode

theorem natural_reading {max : Nat} (h : n ≤ max) (kind : String) :
    natural kind max (reading (Json.natural n)) = .ok n := by
  have hrange : (0 : Int) ≤ n ∧ (n : Int) ≤ max := ⟨Int.natCast_nonneg n, Int.ofNat_le.2 h⟩
  rw [Json.natural, reading, natural, if_pos hrange, Int.toNat_natCast]

theorem byte_reading (b : UInt8) : byte (reading (Json.natural b.toNat)) = .ok b := by
  rw [byte, natural_reading (Nat.le_of_lt_succ b.toNat_lt)]
  exact congrArg Except.ok UInt8.ofNat_toNat

theorem word_reading (kind : String) (w : UInt64) :
    word kind (reading (Json.natural w.toNat)) = .ok w := by
  rw [word, natural_reading (Nat.le_sub_one_of_lt w.toNat_lt)]
  exact congrArg Except.ok UInt64.ofNat_toNat

theorem count_reading (h : n < UInt64.size) : count (reading (Json.natural n)) = .ok n :=
  natural_reading (Nat.le_sub_one_of_lt h) _

theorem list_reading (h : ∀ a ∈ as, decode (reading (write a)) = .ok a) :
    list decode (reading (.array (as.map write))) = .ok as := by
  rw [reading, list]
  induction as with
  | nil => rfl
  | cons a as ih =>
    rw [List.map_cons, itemReadings, items, h a List.mem_cons_self,
      ih fun b hb => h b (List.mem_cons_of_mem _ hb)]
    rfl

theorem strings_reading (texts : List String) : list text (reading (strings texts)) = .ok texts :=
  list_reading fun _ _ => rfl

/-- Something that is written is not taken for nothing. -/
theorem optional_reading {x : Option α} (hnull : ∀ a, reading (write a) ≠ .null)
    (h : ∀ a ∈ x, decode (reading (write a)) = .ok a) :
    optional decode (reading (Json.optional write x)) = .ok x := by
  cases x with
  | none => rfl
  | some a =>
    rw [Json.optional, optional, h a rfl]
    · rfl
    · exact hnull a

theorem once_none (name : String) (decode : Reading → Result α) (r : Reading) :
    once name none decode r = some <$> decode r := rfl

end Decode

namespace Layout

variable {l : Layout σ} {members : List (String × Json)}

theorem fromMembers_reading (h : ∀ m ∈ members, m.1 ∈ l.fields) (draft : σ) :
    l.fromMembers draft (memberReadings members) =
      members.foldlM (fun d m => l.read m.1 d (reading m.2)) draft := by
  induction members generalizing draft with
  | nil => rfl
  | cons m members ih =>
    obtain ⟨name, v⟩ := m
    have hknown : l.fields.contains name = true := List.contains_iff_mem.2 (h _ List.mem_cons_self)
    rw [memberReadings, fromMembers, if_pos hknown, List.foldlM_cons]
    congr 1
    funext d
    exact ih (fun m hm => h m (List.mem_cons_of_mem _ hm)) d

/-- The members of a written record are its fields. -/
theorem decode_reading (h : ∀ m ∈ members, m.1 ∈ l.fields) (start : σ) (finish : σ → Result α) :
    l.decode start finish (reading (.object members)) =
      (members.foldlM (fun d m => l.read m.1 d (reading m.2)) start >>= finish) := by
  rw [reading, decode, fromMembers_reading h]

end Layout

/-- Both written forms of `a` are decoded as `a`. -/
def ReadsBack (decode : Reading → Result α) (write : α → Json) (a : α) : Prop :=
  parse decode (write a).write = .ok a ∧ parse decode (write a).writeIndented = .ok a

theorem readsBack_of_reading {a : α} (hexact : Exact (write a))
    (h : decode (reading (write a)) = .ok a) :
    ReadsBack decode write a :=
  ⟨(Written.parse (.inl rfl) hexact).trans h, (Written.parse (.inr rfl) hexact).trans h⟩

theorem ReadsBack.parse {a : α} {text : String} (ha : ReadsBack decode write a)
    (h : (write a).Written text) :
    parse decode text = .ok a := by
  rcases h with rfl | rfl
  · exact ha.1
  · exact ha.2

/-- A text is written for one value only. -/
theorem ReadsBack.unique {a b : α} {text : String} (ha : ReadsBack decode write a)
    (hb : ReadsBack decode write b) (hat : (write a).Written text)
    (hbt : (write b).Written text) : a = b :=
  Except.ok.inj ((ha.parse hat).symm.trans (hb.parse hbt))

end ProposalVetting.Json
