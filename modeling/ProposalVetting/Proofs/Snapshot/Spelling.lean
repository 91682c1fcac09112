import ProposalVetting.Proofs.Proposal.Spelling
import ProposalVetting.Proofs.Snapshot.Duplicates

namespace ProposalVetting.Snapshot
open Json Failure

variable {document other : String} {members others : List (String × Reading)} {s : Snapshot}

/-- What a snapshot knows of accounts with different names is what stands under these names, in
whatever spelling. -/
theorem parse_eq_ok_iff (hlist : Lists document members) (hnames : (members.map Prod.fst).Nodup)
    (haccounts : ∀ m ∈ members, ∃ e, Entry.decode m.2 = .ok e) :
    parse document = .ok s ↔ Storable members ∧ ∀ a facts, s.get? a = some facts ↔
      ∃ m ∈ members, Input.address m.1 = .ok a ∧ (entryOf m).2.facts = .ok facts := by
  have hknown {t : Snapshot} (ht : parse document = .ok t) (a : Address) (facts : Facts) :
      t.get? a = some facts ↔
        ∃ m ∈ members, Input.address m.1 = .ok a ∧ (entryOf m).2.facts = .ok facts := by
    have hkept : (collect (members.map entryOf)).Perm (members.map entryOf) :=
      collect_perm (by rwa [names_map_entryOf])
    rw [(loaded_of_parse hlist ht).get?_eq_some_iff]
    simp only [hkept.mem_iff, List.mem_map, exists_exists_and_eq_and]
    rfl
  have hstored := exists_parse_iff hlist hnames haccounts
  constructor
  · intro hs
    exact ⟨hstored.1 ⟨s, hs⟩, hknown hs⟩
  · rintro ⟨hstorable, hs⟩
    obtain ⟨t, ht⟩ := hstored.2 hstorable
    -- the snapshot that is loaded answers as `s` does
    have hanswers : ∀ a, t.get? a = s.get? a := fun a => Option.ext fun facts => by
      rw [hknown ht, hs]
    rw [ht, eq_of_get?_eq hanswers]

/-- In the second list names may stand in another spelling, with the same values. -/
def Rekeyed (members others : List (String × Reading)) : Prop :=
  List.Forall₂ (fun m n => Input.Respelled m.1 n.1 ∧ n.2 = m.2) members others

namespace Rekeyed

variable {P : Except InputError Address → Reading → Prop} (h : Rekeyed members others)
include h

theorem map_eq :
    others.map (fun n => (Input.address n.1, n.2)) =
      members.map fun m => (Input.address m.1, m.2) := by
  induction h with
  | nil => rfl
  | cons hm _ ih => rw [List.map_cons, List.map_cons, hm.1.address_eq, hm.2, ih]

theorem exists_iff :
    (∃ n ∈ others, P (Input.address n.1) n.2) ↔ ∃ m ∈ members, P (Input.address m.1) m.2 := by
  have hmap (ms : List (String × Reading)) : (∃ m ∈ ms, P (Input.address m.1) m.2) ↔
      ∃ x ∈ ms.map fun m => (Input.address m.1, m.2), P x.1 x.2 := by
    simp only [List.mem_map, exists_exists_and_eq_and]
  rw [hmap, hmap, h.map_eq]

theorem forall_iff :
    (∀ n ∈ others, P (Input.address n.1) n.2) ↔ ∀ m ∈ members, P (Input.address m.1) m.2 := by
  have hmap (ms : List (String × Reading)) : (∀ m ∈ ms, P (Input.address m.1) m.2) ↔
      ∀ x ∈ ms.map fun m => (Input.address m.1, m.2), P x.1 x.2 := by
    simp only [List.forall_mem_map]
  rw [hmap, hmap, h.map_eq]

/-- Nothing that decides whether members can be stored depends on the spelling. -/
theorem storable (hstorable : Storable members) : Storable others where
  addresses := (h.forall_iff (P := fun x _ => ∃ a, x = .ok a)).2 hstorable.addresses
  apart := by
    have hapart : (members.map fun m => (Input.address m.1, m.2)).Pairwise fun x y => x.1 ≠ y.1 :=
      List.pairwise_map.2 hstorable.apart
    rw [← h.map_eq, List.pairwise_map] at hapart
    exact hapart
  codes := (h.forall_iff (P := fun _ r =>
    ∀ text, Entry.layout.field? "code" r = some (.text (some text)) →
      ∃ bytes, Input.code text = .ok bytes)).2 hstorable.codes
  nonces := (h.forall_iff (P := fun _ r =>
    ∀ text, Entry.layout.field? "nonce" r = some (.text (some text)) →
      ∃ n, Input.nonce text = .ok n)).2 hstorable.nonces

end Rekeyed

theorem parse_of_rekeyed (hlist : Lists document members) (hnames : (members.map Prod.fst).Nodup)
    (hs : parse document = .ok s) (hother : Lists other others) (h : Rekeyed members others) :
    parse other = .ok s := by
  have haccounts := accounts_of_parse hlist hs
  obtain ⟨hstorable, hanswers⟩ := (parse_eq_ok_iff hlist hnames haccounts).1 hs
  have hrestored := h.storable hstorable
  -- addresses that differ have no spelling in common
  have hrenamed : (others.map Prod.fst).Nodup :=
    List.pairwise_map.2 (hrestored.apart.imp fun hne heq => hne (congrArg Input.address heq))
  rw [parse_eq_ok_iff hother hrenamed
    ((h.forall_iff (P := fun _ r => ∃ e, Entry.decode r = .ok e)).2 haccounts)]
  refine ⟨hrestored, fun a facts => (hanswers a facts).trans ?_⟩
  exact (h.exists_iff (P := fun x r => x = .ok a ∧
    ((Entry.decode r).toOption.getD {}).facts = .ok facts)).symm

theorem exists_lists_of_parse (hs : parse document = .ok s) :
    ∃ members, Lists document members := by
  obtain ⟨entries, hentries, -⟩ := bind_eq_ok_iff.1 hs
  exact exists_lists_of_parse_map (mapError_eq_ok_iff.1 hentries)

end ProposalVetting.Snapshot
