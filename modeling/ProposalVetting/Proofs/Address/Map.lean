import ProposalVetting.Address.Map
import Mathlib.Data.List.Nodup

namespace ProposalVetting.AddressMap

variable {α : Type} {a : Address} {v : α} {entries : List (Address × α)}

/-- What stands first under an address in a list of entries. -/
def find? (entries : List (Address × α)) (a : Address) : Option α :=
  (entries.find? fun e => e.1 = a).map Prod.snd

theorem find?_cons (e : Address × α) (rest : List (Address × α)) (a : Address) :
    find? (e :: rest) a = if e.1 = a then some e.2 else find? rest a := by
  by_cases h : e.1 = a <;> simp [find?, h]

theorem find?_put (a : Address) (v : α) (entries : List (Address × α)) (b : Address) :
    find? (put a v entries) b = if a = b then some v else find? entries b := by
  induction entries with
  | nil => rw [put, find?_cons]
  | cons e rest ih =>
    rw [put]
    split
    · rw [find?_cons]
    · split
      · next heq =>
        simp only [find?_cons, heq]
        split <;> rfl
      · next hne =>
        rw [find?_cons, find?_cons, ih]
        by_cases hab : a = b
        · rw [if_pos hab, if_pos hab, if_neg fun he => hne (hab.trans he.symm)]
        · rw [if_neg hab, if_neg hab]

theorem find?_eq_none (h : ∀ e ∈ entries, a.value < e.1.value) : find? entries a = none := by
  have hne : ∀ e ∈ entries, e.1 ≠ a := fun e he heq => Nat.lt_irrefl _ (heq ▸ h e he)
  simpa [find?] using hne

theorem length_put (h : entries.Pairwise fun x y => x.1.value < y.1.value) :
    (put a v entries).length =
      if (find? entries a).isSome then entries.length else entries.length + 1 := by
  induction entries with
  | nil => rfl
  | cons e rest ih =>
    obtain ⟨he, hrest⟩ := List.pairwise_cons.1 h
    rw [put]
    split
    · next hlt =>
      have habsent : find? (e :: rest) a = none :=
        find?_eq_none (List.forall_mem_cons.2 ⟨hlt, fun d hd => Nat.lt_trans hlt (he d hd)⟩)
      rw [habsent]
      rfl
    · split
      · next heq =>
        rw [find?_cons, if_pos heq.symm]
        rfl
      · next hne =>
        rw [find?_cons, if_neg (Ne.symm hne), List.length_cons, ih hrest, List.length_cons]
        split <;> rfl

theorem find?_eq_some_iff (h : entries.Pairwise fun x y => x.1.value < y.1.value) :
    find? entries a = some v ↔ (a, v) ∈ entries := by
  induction entries with
  | nil => simp [find?]
  | cons e rest ih =>
    obtain ⟨he, hrest⟩ := List.pairwise_cons.1 h
    rw [find?_cons, List.mem_cons]
    split
    · next heq =>
      -- no later entry has the address of the first
      have hfirst : (a, v) ∉ rest := fun hmem => Nat.lt_irrefl _ (heq ▸ he _ hmem)
      rw [or_iff_left hfirst, Option.some.injEq]
      constructor
      · rintro rfl
        rw [← heq]
      · intro h
        rw [← h]
    · next hne =>
      rw [ih hrest, or_iff_right]
      intro h
      exact hne (h ▸ rfl)

variable {m n : AddressMap α}

theorem get?_eq_some_iff : m.get? a = some v ↔ (a, v) ∈ m.entries := find?_eq_some_iff m.ascending

theorem mem_keys_iff : a ∈ m.keys ↔ (m.get? a).isSome := by
  simp only [keys, List.mem_map, Option.isSome_iff_exists, get?_eq_some_iff]
  constructor
  · rintro ⟨e, he, rfl⟩
    exact ⟨e.2, he⟩
  · rintro ⟨v, hv⟩
    exact ⟨(a, v), hv, rfl⟩

theorem nodup_keys (m : AddressMap α) : m.keys.Nodup := by
  apply List.pairwise_map.2
  apply m.ascending.imp
  intro x y hlt heq
  rw [heq] at hlt
  exact Nat.lt_irrefl _ hlt

/-- The size counts the addresses that have an answer. -/
theorem size_eq_length {known : List Address} (hnodup : known.Nodup)
    (h : ∀ a, a ∈ known ↔ (m.get? a).isSome) :
    m.size = known.length := by
  have hperm : m.keys.Perm known := by
    rw [List.perm_ext_iff_of_nodup m.nodup_keys hnodup]
    intro a
    rw [mem_keys_iff, h]
  rw [← hperm.length_eq, keys, List.length_map, size]

/-- The answers decide the entries, and the order decides how they stand. -/
theorem eq_of_get?_eq (h : ∀ a, m.get? a = n.get? a) : m = n := by
  have hnodup (m : AddressMap α) : m.entries.Nodup := List.Nodup.of_map _ m.nodup_keys
  have hperm : m.entries.Perm n.entries := by
    rw [List.perm_ext_iff_of_nodup (hnodup m) (hnodup n)]
    rintro ⟨a, v⟩
    rw [← get?_eq_some_iff, ← get?_eq_some_iff, h]
  have hentries : m.entries = n.entries :=
    hperm.eq_of_pairwise
      (fun _ _ _ _ hlt hgt => absurd hgt (Nat.lt_asymm hlt)) m.ascending n.ascending
  cases m
  cases n
  cases hentries
  rfl

variable (m)

theorem get?_insert (a : Address) (v : α) (b : Address) :
    (m.insert a v).get? b = if a = b then some v else m.get? b := find?_put a v m.entries b

theorem size_insert (a : Address) (v : α) :
    (m.insert a v).size = if (m.get? a).isSome then m.size else m.size + 1 := length_put m.ascending

end ProposalVetting.AddressMap
