import ProposalVetting.Check.Run
import Mathlib.Data.Finset.Dedup
import Mathlib.Data.Finset.Lattice.Lemmas
import Mathlib.Data.List.Nodup

namespace ProposalVetting.Check

/-- `unique` has every element of `xs` once, in the order of first occurrence. -/
structure FirstOccurrences (xs unique : List Address) : Prop where
  nodup : unique.Nodup
  mem_iff : ∀ a, a ∈ unique ↔ a ∈ xs
  ordered : unique.Pairwise fun a b => xs.idxOf a < xs.idxOf b

theorem mem_distinct {a : Address} {xs : List Address} : a ∈ distinct xs ↔ a ∈ xs := by
  induction xs with
  | nil => rfl
  | cons b rest ih =>
    rw [distinct, List.mem_cons, List.mem_cons, List.mem_filter, ih]
    by_cases hab : a = b <;> simp [hab]

theorem nodup_distinct (xs : List Address) : (distinct xs).Nodup := by
  induction xs with
  | nil => exact List.nodup_nil
  | cons b rest ih =>
    rw [distinct, List.nodup_cons]
    exact ⟨fun h => by simp at h, ih.filter _⟩

theorem firstOccurrences_distinct (xs : List Address) : FirstOccurrences xs (distinct xs) := by
  refine ⟨nodup_distinct xs, fun _ => mem_distinct, ?_⟩
  induction xs with
  | nil => exact .nil
  | cons a rest ih =>
    have hbehind : ∀ b, b ∈ (distinct rest).filter (· ≠ a) →
        (a :: rest).idxOf b = rest.idxOf b + 1 := by
      intro b hb
      have hne : b ≠ a := by simpa using (List.mem_filter.1 hb).2
      exact List.idxOf_cons_ne _ hne.symm
    rw [distinct, List.pairwise_cons]
    constructor
    · intro b hb
      rw [hbehind b hb, List.idxOf_cons_self]
      exact Nat.succ_pos _
    · refine (ih.sublist List.filter_sublist).imp_of_mem ?_
      intro b c hb hc hlt
      rw [hbehind b hb, hbehind c hc]
      exact Nat.succ_lt_succ hlt

theorem distinct_of_nodup {xs : List Address} (h : xs.Nodup) : distinct xs = xs := by
  induction xs with
  | nil => rfl
  | cons a rest ih =>
    obtain ⟨ha, hrest⟩ := List.nodup_cons.1 h
    rw [distinct, ih hrest, List.filter_eq_self.2]
    intro b hb
    exact decide_eq_true fun hba => ha (hba ▸ hb)

theorem distinct_sublist (xs : List Address) : (distinct xs).Sublist xs := by
  induction xs with
  | nil => exact .refl _
  | cons a rest ih => exact (List.filter_sublist.trans ih).cons_cons a

/-- One pass over a list that keeps what it has not met, neither before nor on the way. -/
def unseen (seen : Finset Address) : List Address → List Address
  | [] => []
  | a :: rest => if a ∈ seen then unseen seen rest else a :: unseen (insert a seen) rest

theorem unseen_append (seen : Finset Address) (xs ys : List Address) :
    unseen seen (xs ++ ys) = unseen seen xs ++ unseen (xs.toFinset ∪ seen) ys := by
  induction xs generalizing seen with
  | nil => rw [List.toFinset_nil, Finset.empty_union]; rfl
  | cons a rest ih =>
    rw [List.cons_append, unseen, unseen, List.toFinset_cons, Finset.insert_union]
    by_cases ha : a ∈ seen
    · -- what was met already adds nothing to the set
      rw [if_pos ha, if_pos ha, ih, Finset.insert_eq_of_mem (Finset.mem_union_right _ ha)]
    · rw [if_neg ha, if_neg ha, ih, Finset.union_insert, List.cons_append]

/-- Whatever was met before, the pass lists the distinct addresses that are left. -/
theorem unseen_eq_filter (seen : Finset Address) (xs : List Address) :
    unseen seen xs = (distinct xs).filter (· ∉ seen) := by
  induction xs generalizing seen with
  | nil => rfl
  | cons a rest ih =>
    rw [unseen, distinct]
    by_cases ha : a ∈ seen
    · have hother : ∀ b ∈ distinct rest, (decide (b ∉ seen) && decide (b ≠ a)) =
          decide (b ∉ seen) := by
        intro b _
        by_cases hba : b = a <;> simp [hba, ha]
      rw [if_pos ha, ih, List.filter_cons_of_neg (by simpa using ha), List.filter_filter,
        List.filter_congr hother]
    · have hinsert : ∀ b ∈ distinct rest, decide (b ∉ insert a seen) =
          (decide (b ∉ seen) && decide (b ≠ a)) := by
        intro b _
        by_cases hba : b = a <;> simp [hba]
      rw [if_neg ha, ih, List.filter_cons_of_pos (by simpa using ha), List.filter_filter,
        List.filter_congr hinsert]

theorem unseen_empty (xs : List Address) : unseen ∅ xs = distinct xs := by
  rw [unseen_eq_filter, List.filter_eq_self.2]
  exact fun a _ => decide_eq_true (Finset.notMem_empty a)

theorem distinct_append (xs ys : List Address) :
    distinct (xs ++ ys) = distinct xs ++ (distinct ys).filter (· ∉ xs) := by
  calc distinct (xs ++ ys)
      = unseen ∅ xs ++ unseen (xs.toFinset ∪ ∅) ys := by rw [← unseen_empty, unseen_append]
    _ = distinct xs ++ (distinct ys).filter (· ∉ xs.toFinset) := by
      rw [unseen_empty, Finset.union_empty, unseen_eq_filter]
    _ = distinct xs ++ (distinct ys).filter (· ∉ xs) := by simp only [List.mem_toFinset]

/-- Of two lists one behind the other, the distinct addresses are those of the first and then those
of the second that the first does not have. They are the addresses of the whole list, each once,
where it first occurs, and without repetitions nothing changes any more. A pass that keeps a set of
what it has met finds the same, whatever it met before. -/
theorem distinct_distributes_over_append (xs ys : List Address) :
    distinct (xs ++ ys) = distinct xs ++ (distinct ys).filter (· ∉ xs) ∧
    FirstOccurrences xs (distinct xs) ∧
    (distinct xs).Sublist xs ∧
    distinct (distinct xs) = distinct xs ∧
    unseen ∅ xs = distinct xs ∧
    ∀ seen, unseen seen xs = (distinct xs).filter (· ∉ seen) := by
  exact ⟨distinct_append xs ys, firstOccurrences_distinct xs, distinct_sublist xs,
    distinct_of_nodup (nodup_distinct xs), unseen_empty xs, fun seen => unseen_eq_filter seen xs⟩

end ProposalVetting.Check
