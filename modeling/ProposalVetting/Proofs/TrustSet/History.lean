import ProposalVetting.Proofs.Account
import Mathlib.Data.List.Dedup

namespace ProposalVetting

variable {s t : TrustSet} {a b : Address} {initial addresses : List Address}

namespace TrustSet

theorem ext_contains (h : ∀ a, s.contains a = true ↔ t.contains a = true) : s = t := by
  have hmembers : s.members = t.members := by
    apply AddressMap.eq_of_get?_eq
    intro a
    have hsome : (s.members.get? a).isSome = (t.members.get? a).isSome := Bool.eq_iff_iff.2 (h a)
    cases hs : s.members.get? a <;> cases ht : t.members.get? a <;> simp [hs, ht] at hsome ⊢
  exact congrArg TrustSet.mk hmembers

theorem insert_of_contains (h : s.contains a = true) : s.insert a = (s, false) := if_pos h

theorem insert_snd : (s.insert a).2 = !s.contains a := by
  unfold insert
  cases s.contains a <;> rfl

theorem insert_fst_eq_iff : (s.insert a).1 = s ↔ s.contains a = true := by
  constructor
  · intro h
    have hadded : (s.insert a).1.contains a = true := contains_insert.2 (.inr rfl)
    rwa [h] at hadded
  · intro h
    rw [insert_of_contains h]

theorem isEmpty_iff : s.isEmpty = true ↔ s.size = 0 := List.isEmpty_iff_length_eq_zero

/-- Something that is put into a set: one address, or many at once. -/
inductive Addition where
  | one (a : Address)
  | many (addresses : List Address)

def Addition.given : Addition → List Address
  | one a => [a]
  | many addresses => addresses

def add (s : TrustSet) : Addition → TrustSet
  | .one a => (s.insert a).1
  | .many addresses => s.extend addresses

/-- A set after some history: the addresses it is made of, and what is added to it in the course of
time. -/
def grown (initial : List Address) (additions : List Addition) : TrustSet :=
  additions.foldl add (ofList initial)

/-- The addresses given to a set in its history. -/
def given (initial : List Address) (additions : List Addition) : List Address :=
  initial ++ additions.flatMap Addition.given

/-- The members of the set are these addresses, in whatever order and however often they stand
there. -/
def Holds (s : TrustSet) (addresses : List Address) : Prop :=
  ∀ a, s.contains a = true ↔ a ∈ addresses

theorem holds_ofList (addresses : List Address) : (ofList addresses).Holds addresses :=
  fun _ => contains_ofList

theorem Holds.add (h : s.Holds addresses) (addition : Addition) :
    (s.add addition).Holds (addresses ++ addition.given) := by
  intro b
  cases addition with
  | one a =>
    rw [TrustSet.add, contains_insert, h b, Addition.given, List.mem_append,
      List.mem_singleton, eq_comm]
  | many more => rw [TrustSet.add, contains_extend, h b, Addition.given, List.mem_append]

theorem Holds.foldl_add (h : s.Holds addresses) (additions : List Addition) :
    (additions.foldl TrustSet.add s).Holds (addresses ++ additions.flatMap Addition.given) := by
  induction additions generalizing s addresses with
  | nil => simpa using h
  | cons addition rest ih =>
    rw [List.foldl_cons, List.flatMap_cons, ← List.append_assoc]
    exact ih (h.add addition)

theorem holds_grown (initial : List Address) (additions : List Addition) :
    (grown initial additions).Holds (given initial additions) :=
  (holds_ofList initial).foldl_add additions

theorem Holds.size_eq (h : s.Holds addresses) : s.size = addresses.dedup.length := by
  apply AddressMap.size_eq_length addresses.nodup_dedup
  intro a
  rw [List.mem_dedup, ← h a]
  rfl

theorem Holds.eq_iff {others : List Address} (hs : s.Holds addresses) (ht : t.Holds others) :
    s = t ↔ ∀ a, a ∈ addresses ↔ a ∈ others := by
  constructor
  · rintro rfl a
    rw [← hs a, ht a]
  · intro h
    apply ext_contains
    intro a
    rw [hs a, h a, ht a]

theorem eq_iff_classify_eq : s = t ↔ ∀ a facts, classify s a facts = classify t a facts := by
  constructor
  · rintro rfl _ _
    rfl
  · intro h
    apply ext_contains
    intro a
    rw [← classify_eq_trusted_iff (f := {}), h, classify_eq_trusted_iff]

/-- Whatever the history of a set, it is the set of the addresses given to it: so it answers, grows,
is counted, compared and used in classification, and order, grouping and repetition leave no
trace. -/
theorem grown_is_set_of_given (initial : List Address) (additions : List Addition) :
    ∃ s, grown initial additions = s ∧
      (∀ a, s.contains a = true ↔ a ∈ given initial additions) ∧
      (∀ a, ((s.insert a).2 = true ↔ a ∉ given initial additions) ∧
        ((s.insert a).2 = false ↔ (s.insert a).1 = s)) ∧
      s.size = (given initial additions).dedup.length ∧ (s.isEmpty = true ↔ s.size = 0) ∧
      (∀ others more,
        (s = grown others more ↔ ∀ a, a ∈ given initial additions ↔ a ∈ given others more) ∧
        (s = grown others more ↔
          ∀ a facts, classify s a facts = classify (grown others more) a facts)) ∧
      ∀ b a facts, classify (s.insert b).1 a facts =
        if a = b then .trusted else classify s a facts := by
  have hholds := holds_grown initial additions
  refine ⟨_, rfl, hholds, fun a => ⟨?_, ?_⟩, hholds.size_eq, isEmpty_iff,
    fun others more => ⟨?_, eq_iff_classify_eq⟩, classify_insert _⟩
  · rw [insert_snd, Bool.not_eq_true', ← Bool.not_eq_true, hholds a]
  · rw [insert_snd, Bool.not_eq_false', insert_fst_eq_iff]
  · exact hholds.eq_iff (holds_grown others more)

end TrustSet
end ProposalVetting
