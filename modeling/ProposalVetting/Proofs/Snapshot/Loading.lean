import ProposalVetting.Proofs.Address.Map
import ProposalVetting.Proofs.Failure
import ProposalVetting.Snapshot
import Mathlib.Data.List.Induction

namespace ProposalVetting.Snapshot
open Failure

variable {s t : Snapshot} {name : String} {e : Entry} {entries : List (String × Entry)}
  {a : Address} {facts : Facts}

theorem get?_withAccount (s : Snapshot) (a : Address) (facts : Facts) (b : Address) :
    (s.withAccount a facts).get? b = if a = b then some facts else s.get? b :=
  AddressMap.get?_insert ..

theorem size_withAccount (h : s.get? a = none) : (s.withAccount a facts).size = s.size + 1 := by
  have hsize := AddressMap.size_insert s.accounts a facts
  rwa [show s.accounts.get? a = none from h] at hsize

theorem add_of_address_error {cause : InputError} (h : Input.address name = .error cause) :
    s.add name e = .error (.snapshot cause.message) := by
  rw [add, h]
  rfl

theorem add_of_facts_error {cause : InputError} (haddress : Input.address name = .ok a)
    (h : e.facts = .error cause) :
    s.add name e = .error (.snapshot (name ++ ": " ++ cause.message)) := by
  rw [add, haddress, h]
  rfl

theorem add_of_facts (haddress : Input.address name = .ok a) (hfacts : e.facts = .ok facts) :
    s.add name e =
      if (s.get? a).isSome then .error (.snapshot ("duplicate entry for " ++ a.checksum))
      else .ok (s.withAccount a facts) := by
  rw [add, haddress, hfacts]
  simp only [Except.mapError, bind, Except.bind]
  split <;> rfl

/-- Why an entry cannot be added; the first reason counts. -/
inductive Refused (s : Snapshot) (name : String) (e : Entry) : String → Prop where
  | address {cause : InputError} (h : Input.address name = .error cause) :
    Refused s name e cause.message
  | facts {a : Address} {cause : InputError} (haddress : Input.address name = .ok a)
    (h : e.facts = .error cause) :
    Refused s name e (name ++ ": " ++ cause.message)
  | duplicate {a : Address} {facts : Facts} (haddress : Input.address name = .ok a)
    (hfacts : e.facts = .ok facts) (h : (s.get? a).isSome) :
    Refused s name e ("duplicate entry for " ++ a.checksum)

/-- An entry is stored under its address, or it is refused. -/
theorem add_cases (s : Snapshot) (name : String) (e : Entry) :
    (∃ a facts, Input.address name = .ok a ∧ e.facts = .ok facts ∧ s.get? a = none ∧
      s.add name e = .ok (s.withAccount a facts)) ∨
    ∃ reason, s.Refused name e reason ∧ s.add name e = .error (.snapshot reason) := by
  cases haddress : Input.address name with
  | error cause => exact .inr ⟨_, .address haddress, add_of_address_error haddress⟩
  | ok a =>
    cases hfacts : e.facts with
    | error cause => exact .inr ⟨_, .facts haddress hfacts, add_of_facts_error haddress hfacts⟩
    | ok facts =>
      by_cases hfound : (s.get? a).isSome
      · exact .inr
          ⟨_, .duplicate haddress hfacts hfound,
            (add_of_facts haddress hfacts).trans (if_pos hfound)⟩
      · exact .inl ⟨a, facts, rfl, rfl, Option.not_isSome_iff_eq_none.1 hfound,
          (add_of_facts haddress hfacts).trans (if_neg hfound)⟩

theorem exists_of_add_eq_ok (h : s.add name e = .ok t) :
    ∃ a facts, Input.address name = .ok a ∧ e.facts = .ok facts ∧ s.get? a = none ∧
      t = s.withAccount a facts := by
  rcases add_cases s name e with ⟨a, facts, haddress, hfacts, hfree, hadd⟩ | ⟨reason, -, hadd⟩
  · cases hadd.symm.trans h
    exact ⟨a, facts, haddress, hfacts, hfree, rfl⟩
  · cases hadd.symm.trans h

theorem add_eq_error_iff {x : ProviderError} :
    s.add name e = .error x ↔ ∃ reason, x = .snapshot reason ∧ s.Refused name e reason := by
  constructor
  · intro h
    rcases add_cases s name e with ⟨a, facts, -, -, -, hadd⟩ | ⟨reason, hrefused, hadd⟩
    · cases hadd.symm.trans h
    · cases hadd.symm.trans h
      exact ⟨reason, rfl, hrefused⟩
  · rintro ⟨reason, rfl, h⟩
    cases h with
    | address h => exact add_of_address_error h
    | facts haddress h => exact add_of_facts_error haddress h
    | duplicate haddress hfacts h => exact (add_of_facts haddress hfacts).trans (if_pos h)

/-- The snapshot holds exactly these entries, and their addresses are pairwise different. -/
structure Loaded (entries : List (String × Entry)) (s : Snapshot) : Prop where
  stored : ∀ e ∈ entries,
    ∃ a facts, Input.address e.1 = .ok a ∧ e.2.facts = .ok facts ∧ s.get? a = some facts
  known : ∀ a, s.get? a ≠ none → ∃ e ∈ entries, Input.address e.1 = .ok a
  apart : entries.Pairwise fun d e => Input.address d.1 ≠ Input.address e.1
  size : s.size = entries.length

theorem Loaded.nil : Loaded [] empty where
  stored := by simp
  known a h := absurd rfl h
  apart := .nil
  size := rfl

/-- The new address is none of those before, so their facts stay as they are. -/
theorem Loaded.add {e : String × Entry} (h : Loaded entries s) (hadd : s.add e.1 e.2 = .ok t) :
    Loaded (entries ++ [e]) t := by
  obtain ⟨a, facts, haddress, hfacts, hfree, rfl⟩ := exists_of_add_eq_ok hadd
  have hnew : ∀ d ∈ entries, Input.address d.1 ≠ .ok a := by
    intro d hd heq
    obtain ⟨b, _, hb, -, hstored⟩ := h.stored d hd
    cases hb.symm.trans heq
    rw [hfree] at hstored
    cases hstored
  constructor
  case stored =>
    intro d hd
    rcases List.mem_append.1 hd with hd | hd
    · obtain ⟨b, others, hb, hothers, hstored⟩ := h.stored d hd
      refine ⟨b, others, hb, hothers, ?_⟩
      rw [get?_withAccount, if_neg fun hab : a = b => hnew d hd (hab ▸ hb), hstored]
    · obtain rfl := List.mem_singleton.1 hd
      exact ⟨a, facts, haddress, hfacts, by rw [get?_withAccount, if_pos rfl]⟩
  case known =>
    intro b hb
    rw [get?_withAccount] at hb
    split at hb
    · next hab => exact ⟨e, by simp, hab ▸ haddress⟩
    · obtain ⟨d, hd, hdb⟩ := h.known b hb
      exact ⟨d, List.mem_append_left _ hd, hdb⟩
  case apart =>
    refine List.pairwise_append.2 ⟨h.apart, List.pairwise_singleton _ _, fun d hd e' he' => ?_⟩
    obtain rfl := List.mem_singleton.1 he'
    rw [haddress]
    exact hnew d hd
  case size => rw [size_withAccount hfree, h.size, List.length_append, List.length_singleton]

theorem Loaded.get?_eq_some_iff (h : Loaded entries s) :
    s.get? a = some facts ↔ ∃ e ∈ entries, Input.address e.1 = .ok a ∧ e.2.facts = .ok facts := by
  constructor
  · intro hfound
    obtain ⟨e, he, ha⟩ := h.known a (by simp [hfound])
    obtain ⟨b, found, hb, hfacts, hstored⟩ := h.stored e he
    cases hb.symm.trans ha
    cases hstored.symm.trans hfound
    exact ⟨e, he, ha, hfacts⟩
  · rintro ⟨e, he, ha, hfacts⟩
    obtain ⟨b, found, hb, hfound, hstored⟩ := h.stored e he
    cases hb.symm.trans ha
    cases hfound.symm.trans hfacts
    exact hstored

/-- Two snapshots that hold the same facts under the same addresses are the same. -/
theorem eq_of_get?_eq (h : ∀ a, s.get? a = t.get? a) : s = t :=
  congrArg Snapshot.mk (AddressMap.eq_of_get?_eq h)

/-- All entries are added, one after the other. -/
def addAll (entries : List (String × Entry)) : Except ProviderError Snapshot :=
  entries.foldlM (fun s e => s.add e.1 e.2) empty

theorem loaded_of_addAll (h : addAll entries = .ok s) : Loaded entries s := by
  induction entries using List.reverseRecOn generalizing s with
  | nil =>
    cases h
    exact .nil
  | append_singleton entries e ih =>
    rw [addAll, List.foldlM_append] at h
    obtain ⟨t, ht, h⟩ := bind_eq_ok_iff.1 h
    obtain ⟨u, hu, h⟩ := bind_eq_ok_iff.1 h
    cases h
    exact (ih ht).add hu

end ProposalVetting.Snapshot
