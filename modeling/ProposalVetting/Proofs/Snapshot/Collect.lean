import ProposalVetting.Snapshot
import Mathlib.Data.List.Dedup
import Mathlib.Data.List.Induction
import Mathlib.Data.String.Basic

namespace ProposalVetting.Snapshot

variable {d e : String × Entry} {entries others : List (String × Entry)}

/-- In strictly ascending order of the names. -/
def Ascending (entries : List (String × Entry)) : Prop := entries.Pairwise fun d e => d.1 < e.1

theorem Ascending.nodup_names (h : Ascending entries) : (entries.map Prod.fst).Nodup :=
  List.pairwise_map.2 (List.Pairwise.imp ne_of_lt h)

theorem Ascending.nodup (h : Ascending entries) : entries.Nodup := List.Nodup.of_map _ h.nodup_names

theorem mem_put_iff (h : Ascending entries) :
    d ∈ collect.put e entries ↔ d = e ∨ d ∈ entries ∧ d.1 ≠ e.1 := by
  induction entries with
  | nil => simp [collect.put]
  | cons c rest ih =>
    obtain ⟨hc, hrest⟩ := List.pairwise_cons.1 h
    rw [collect.put]
    split
    · next hlt =>
      have hlast : d ∈ c :: rest → d.1 ≠ e.1 := by
        intro hd
        rcases List.mem_cons.1 hd with rfl | hd
        · exact ne_of_gt hlt
        · exact ne_of_gt (lt_trans hlt (hc d hd))
      rw [List.mem_cons, and_iff_left_of_imp hlast]
    · split
      · next heq =>
        have hlater : d ∈ rest → d.1 ≠ e.1 := fun hd => heq ▸ ne_of_gt (hc d hd)
        have hreplaced : d = c → ¬ d.1 ≠ e.1 := fun hd hne => hne (hd ▸ heq.symm)
        rw [List.mem_cons, List.mem_cons]
        tauto
      · next hne =>
        have hkept : d = c → d.1 ≠ e.1 := fun hd => hd ▸ Ne.symm hne
        rw [List.mem_cons, List.mem_cons, ih hrest]
        tauto

theorem ascending_put (h : Ascending entries) : Ascending (collect.put e entries) := by
  induction entries with
  | nil => exact List.pairwise_singleton _ _
  | cons c rest ih =>
    obtain ⟨hc, hrest⟩ := List.pairwise_cons.1 h
    rw [collect.put]
    split
    · next hlt =>
      exact List.pairwise_cons.2
        ⟨List.forall_mem_cons.2 ⟨hlt, fun d hd => lt_trans hlt (hc d hd)⟩, h⟩
    · next hge =>
      split
      · next heq => exact List.pairwise_cons.2 ⟨fun d hd => heq ▸ hc d hd, hrest⟩
      · next hne =>
        refine List.pairwise_cons.2 ⟨fun d hd => ?_, ih hrest⟩
        rcases (mem_put_iff hrest).1 hd with rfl | ⟨hd, -⟩
        · exact lt_of_le_of_ne (not_lt.1 hge) (Ne.symm hne)
        · exact hc d hd

theorem collect_concat (entries : List (String × Entry)) (e : String × Entry) :
    collect (entries ++ [e]) = collect.put e (collect entries) := List.foldl_concat ..

theorem ascending_collect (entries : List (String × Entry)) : Ascending (collect entries) := by
  induction entries using List.reverseRecOn with
  | nil => exact .nil
  | append_singleton entries e ih =>
    rw [collect_concat]
    exact ascending_put ih

/-- What is kept of a name is what was written last. -/
theorem mem_collect_iff :
    d ∈ collect entries ↔
      ∃ before behind, entries = before ++ d :: behind ∧ d.1 ∉ behind.map Prod.fst := by
  -- from the end, since each entry overrules what stands before it
  induction entries using List.reverseRecOn with
  | nil => simp [collect]
  | append_singleton entries e ih =>
    rw [collect_concat, mem_put_iff (ascending_collect entries), ih]
    constructor
    · rintro (rfl | ⟨⟨before, behind, rfl, hlast⟩, hne⟩)
      · exact ⟨entries, [], rfl, by simp⟩
      · refine ⟨before, behind ++ [e], by simp, ?_⟩
        simpa [hne] using hlast
    · rintro ⟨before, behind, h, hlast⟩
      rcases List.eq_nil_or_concat behind with rfl | ⟨behind, c, rfl⟩
      · have hend := List.append_inj_right' h rfl
        exact .inl (List.head_eq_of_cons_eq hend).symm
      · rw [List.concat_eq_append] at h hlast
        rw [← List.cons_append, ← List.append_assoc] at h
        obtain ⟨rfl, hc⟩ := List.append_inj' h rfl
        obtain rfl := List.head_eq_of_cons_eq hc
        rw [List.map_append, List.mem_append, not_or] at hlast
        exact .inr ⟨⟨before, behind, rfl, hlast.1⟩, by simpa using hlast.2⟩

theorem mem_names_collect_iff {name : String} :
    name ∈ (collect entries).map Prod.fst ↔ name ∈ entries.map Prod.fst := by
  induction entries using List.reverseRecOn with
  | nil => rfl
  | append_singleton entries e ih =>
    rw [collect_concat, List.map_append, List.mem_append, ← ih]
    simp only [List.mem_map, mem_put_iff (ascending_collect entries), List.mem_singleton]
    constructor
    · rintro ⟨d, rfl | ⟨hd, -⟩, hname⟩
      · exact .inr ⟨d, rfl, hname⟩
      · exact .inl ⟨d, hd, hname⟩
    · rintro (⟨d, hd, rfl⟩ | ⟨d, rfl, hname⟩)
      · by_cases hde : d.1 = e.1
        · exact ⟨e, .inl rfl, hde.symm⟩
        · exact ⟨d, .inr ⟨hd, hde⟩, rfl⟩
      · exact ⟨d, .inl rfl, hname⟩

/-- Each name counts once. -/
theorem length_collect (entries : List (String × Entry)) :
    (collect entries).length = (entries.map Prod.fst).dedup.length := by
  have hperm : ((collect entries).map Prod.fst).Perm (entries.map Prod.fst).dedup := by
    rw [List.perm_ext_iff_of_nodup (ascending_collect entries).nodup_names (List.nodup_dedup _)]
    intro name
    rw [mem_names_collect_iff, List.mem_dedup]
  rw [← hperm.length_eq, List.length_map]

theorem collect_perm (h : (entries.map Prod.fst).Nodup) : (collect entries).Perm entries := by
  rw [List.perm_ext_iff_of_nodup (ascending_collect entries).nodup (List.Nodup.of_map _ h)]
  intro d
  rw [mem_collect_iff]
  constructor
  · rintro ⟨before, behind, rfl, -⟩
    simp
  · intro hd
    obtain ⟨before, behind, rfl⟩ := List.append_of_mem hd
    rw [List.map_append, List.map_cons] at h
    exact ⟨before, behind, rfl, (List.nodup_cons.1 (List.nodup_append.1 h).2.1).1⟩

/-- Entries with different names are kept in the one order that is ascending. -/
theorem collect_eq_of_ascending (h : Ascending others) (hperm : others.Perm entries) :
    collect entries = others := by
  have hnames : (entries.map Prod.fst).Nodup := (hperm.map Prod.fst).nodup_iff.1 h.nodup_names
  refine List.Perm.eq_of_pairwise ?_ (ascending_collect entries) h
    ((collect_perm hnames).trans hperm.symm)
  intro d e _ _ hde hed
  exact absurd hed (lt_asymm hde)

end ProposalVetting.Snapshot
