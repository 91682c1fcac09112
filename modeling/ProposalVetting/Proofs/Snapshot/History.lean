import ProposalVetting.Proofs.Snapshot.Spelling

namespace ProposalVetting.Snapshot
open Json Failure

variable {document : String} {members : List (String × Reading)} {s : Snapshot}
  {stored : Address → Option Facts} {a : Address} {f : Facts}

/-- Of the members with its name the last is the account of `a`, with these facts. -/
def WrittenLast (members : List (String × Reading)) (a : Address) (facts : Facts) : Prop :=
  ∃ before m behind, members = before ++ m :: behind ∧ m.1 ∉ behind.map Prod.fst ∧
    Input.address m.1 = .ok a ∧ Entry.Code m.2 (.ok facts.code) ∧
    Entry.Nonce m.2 (.ok facts.nonce)

theorem facts_entryOf_eq_ok_iff {m : String × Reading}
    (h : m.2.Bounded ∧ ∃ e, Entry.decode m.2 = .ok e) :
    (entryOf m).2.facts = .ok f ↔ Entry.Code m.2 (.ok f.code) ∧ Entry.Nonce m.2 (.ok f.nonce) := by
  obtain ⟨code, nonce, hcode, hnonce, hfacts⟩ := exists_facts_entryOf_eq h
  rw [hfacts, bind_eq_ok_iff]
  constructor
  · rintro ⟨c, rfl, hread⟩
    obtain ⟨n, rfl, rfl⟩ := map_eq_ok_iff.1 hread
    exact ⟨hcode, hnonce⟩
  · rintro ⟨hc, hn⟩
    exact ⟨f.code, hcode.unique hc, map_eq_ok_iff.2 ⟨f.nonce, hnonce.unique hn, rfl⟩⟩

/-- What is loaded is what is written last. -/
theorem get?_eq_some_iff_of_parse (hlist : Lists document members) (h : parse document = .ok s) :
    s.get? a = some f ↔ WrittenLast members a f := by
  have haccounts : ∀ m ∈ members, m.2.Bounded ∧ ∃ e, Entry.decode m.2 = .ok e := fun m hm =>
    ⟨hlist.bounded m hm, accounts_of_parse hlist h m hm⟩
  rw [(loaded_of_parse hlist h).get?_eq_some_iff]
  constructor
  · rintro ⟨e, he, haddress, hfacts⟩
    obtain ⟨before', behind', hsplit, hlast⟩ := mem_collect_iff.1 he
    obtain ⟨before, rest, rfl, rfl, hrest⟩ := List.map_eq_append_iff.1 hsplit
    obtain ⟨m, behind, rfl, rfl, rfl⟩ := List.map_eq_cons_iff.1 hrest
    rw [names_map_entryOf] at hlast
    obtain ⟨hcode, hnonce⟩ := (facts_entryOf_eq_ok_iff (haccounts m (by simp))).1 hfacts
    exact ⟨before, m, behind, rfl, hlast, haddress, hcode, hnonce⟩
  · rintro ⟨before, m, behind, rfl, hlast, haddress, hcode, hnonce⟩
    refine ⟨entryOf m, mem_collect_iff.2 ⟨before.map entryOf, behind.map entryOf, by simp, ?_⟩,
      haddress, ?_⟩
    · rw [names_map_entryOf]
      exact hlast
    · exact (facts_entryOf_eq_ok_iff (haccounts m (by simp))).2 ⟨hcode, hnonce⟩

/-- Where a snapshot comes from, with the facts it has from there. -/
inductive Origin : Snapshot → (Address → Option Facts) → Prop where
  | empty : Origin .empty fun _ => none
  | loaded {document : String} {members : List (String × Reading)} {s : Snapshot}
    {stored : Address → Option Facts} (hlist : Lists document members) (h : parse document = .ok s)
    (hstored : ∀ a facts, stored a = some facts ↔ WrittenLast members a facts) : Origin s stored

theorem Origin.get?_eq (h : Origin s stored) (a : Address) : s.get? a = stored a := by
  cases h with
  | empty => rfl
  | loaded hlist hparse hstored =>
    apply Option.ext
    intro facts
    rw [get?_eq_some_iff_of_parse hlist hparse, hstored]

/-- Whatever was loaded has an origin. -/
theorem origin_of_parse (h : parse document = .ok s) : Origin s s.get? := by
  obtain ⟨members, hlist⟩ := exists_lists_of_parse h
  exact .loaded hlist h fun _ _ => get?_eq_some_iff_of_parse hlist h

/-- An operation that stores facts. -/
inductive Change where
  | insert (a : Address) (facts : Facts)
  | withAccount (a : Address) (facts : Facts)

namespace Change

def address : Change → Address
  | insert a _ => a
  | withAccount a _ => a

def facts : Change → Facts
  | insert _ f => f
  | withAccount _ f => f

end Change

variable {changes : List Change} {c : Change}

def changed (s : Snapshot) : Change → Snapshot
  | .insert a facts => (s.insert a facts).1
  | .withAccount a facts => s.withAccount a facts

/-- The facts stored last for an address. -/
def latest? (changes : List Change) (a : Address) : Option Facts :=
  (changes.filter fun c => c.address = a).getLast?.map Change.facts

theorem latest?_concat (changes : List Change) (c : Change) (a : Address) :
    latest? (changes ++ [c]) a = if c.address = a then some c.facts else latest? changes a := by
  by_cases h : c.address = a <;> simp [latest?, h]

theorem latest?_eq_none_iff : latest? changes a = none ↔ a ∉ changes.map Change.address := by
  simp [latest?]

theorem changed_eq (s : Snapshot) (c : Change) : s.changed c = s.withAccount c.address c.facts := by
  cases c <;> rfl

/-- Each operation overrules what was stored for its address, and leaves the other addresses
alone. -/
theorem get?_changed (s : Snapshot) (c : Change) (a : Address) :
    (s.changed c).get? a = if c.address = a then some c.facts else s.get? a := by
  rw [changed_eq, get?_withAccount]

theorem get?_foldl_changed (s : Snapshot) (changes : List Change) (a : Address) :
    (changes.foldl changed s).get? a = (latest? changes a).or (s.get? a) := by
  -- from the end, since the last operation decides
  induction changes using List.reverseRecOn with
  | nil => rfl
  | append_singleton changes c ih =>
    rw [List.foldl_concat, get?_changed, latest?_concat, ih]
    split <;> rfl

theorem code_source (s : Snapshot) (a : Address) :
    s.source.code a = .immediate ((s.get? a).getD .unused).code := rfl

theorem nonce_source (s : Snapshot) (a : Address) :
    s.source.nonce a = .immediate ((s.get? a).getD .unused).nonce := rfl

/-- Only an account that is stored so has no code to be looked at; a missing one has empty code. -/
theorem code_source_eq_none_iff :
    s.source.code a = .immediate none ↔ ∃ nonce, s.get? a = some ⟨none, nonce⟩ := by
  rw [code_source]
  cases s.get? a with
  | none => simp [Lookup.immediate, Facts.unused]
  | some facts =>
    obtain ⟨code, nonce⟩ := facts
    simp [Lookup.immediate]

/-- After any operations on a snapshot that was loaded or empty, both lookups of an address speak of
the same facts: those stored last, or those of the document, or those of an unused account. An
insertion gives back what it overrules, and changes the lookups of its own address only. -/
theorem last_write_wins (horigin : Origin s stored) (changes : List Change) :
    ∃ t, changes.foldl changed s = t ∧
      (∀ a, ∃ facts, facts = ((latest? changes a).or (stored a)).getD ⟨some [], 0⟩ ∧
        t.source.code a = .immediate facts.code ∧ t.source.nonce a = .immediate facts.nonce) ∧
      (∀ a, t.source.code a = .immediate none ↔
        ∃ nonce, (latest? changes a).or (stored a) = some ⟨none, nonce⟩) ∧
      (∀ a facts, (t.insert a facts).2 = (latest? changes a).or (stored a) ∧
        ((t.insert a facts).2 = none ↔ a ∉ changes.map Change.address ∧ stored a = none)) ∧
      (∃ known : List Address, known.Nodup ∧
        (∀ a, a ∈ known ↔ a ∈ changes.map Change.address ∨ stored a ≠ none) ∧
        t.size = known.length) ∧
      ∀ c a, c.address ≠ a →
        (t.changed c).source.code a = t.source.code a ∧
        (t.changed c).source.nonce a = t.source.nonce a := by
  have hknown (a : Address) :
      (changes.foldl changed s).get? a = (latest? changes a).or (stored a) := by
    rw [get?_foldl_changed, horigin.get?_eq]
  have habsent (a : Address) : (latest? changes a).or (stored a) = none ↔
      a ∉ changes.map Change.address ∧ stored a = none := by
    rw [Option.or_eq_none_iff, latest?_eq_none_iff]
  refine ⟨_, rfl, fun a => ⟨_, rfl, ?_, ?_⟩, fun a => ?_, fun a facts => ⟨hknown a, ?_⟩, ?_,
    fun c a hne => ?_⟩
  · rw [code_source, hknown]
    rfl
  · rw [nonce_source, hknown]
    rfl
  · rw [code_source_eq_none_iff, hknown]
  · rw [← habsent, ← hknown]
    rfl
  · have hmem (a : Address) : a ∈ (changes.foldl changed s).accounts.keys ↔
        (changes.foldl changed s).get? a ≠ none := by
      rw [AddressMap.mem_keys_iff, Option.isSome_iff_ne_none]
      rfl
    refine ⟨_, AddressMap.nodup_keys _, fun a => ?_, (List.length_map _).symm⟩
    rw [hmem, hknown, Ne, habsent, not_and_or, not_not]
  · have hkept :
        ((changes.foldl changed s).changed c).get? a = (changes.foldl changed s).get? a := by
      rw [get?_changed, if_neg hne]
    simp only [code_source, nonce_source, hkept, and_self]

/-- An account that was loaded is overruled, and one without code is new. -/
def rewriting : List Change :=
  [.withAccount ⟨List.replicate 20 0x11, rfl⟩ ⟨some [0xff], 3⟩,
   .insert ⟨List.replicate 20 0x33, rfl⟩ ⟨none, 5⟩]

/-- The account that was loaded and left alone is still there. -/
theorem rewriting_keeps_others :
    ∃ s, parse pair = .ok s ∧ Origin s s.get? ∧
      (rewriting.foldl changed s).source.code ⟨List.replicate 20 0x11, rfl⟩ =
        .immediate (some [0xff]) ∧
      (rewriting.foldl changed s).source.nonce ⟨List.replicate 20 0x22, rfl⟩ = .immediate 5 ∧
      (rewriting.foldl changed s).source.code ⟨List.replicate 20 0x33, rfl⟩ = .immediate none := by
  have haccounts : ∀ m ∈ pairMembers, ∃ e, Entry.decode m.2 = .ok e :=
    List.forall_mem_cons.2 ⟨⟨_, rfl⟩, List.forall_mem_singleton.2 ⟨_, rfl⟩⟩
  obtain ⟨s, hs⟩ := (exists_parse_iff lists_pair (by decide) haccounts).2 storable_pair
  have hloaded : s.get? ⟨List.replicate 20 0x22, rfl⟩ = some ⟨some [], 5⟩ := by
    have hnonce : Input.nonce "0x5" = .ok 5 := by decide +kernel
    rw [get?_eq_some_iff_of_parse lists_pair hs]
    exact ⟨[], _, _, rfl, by decide, by decide +kernel, .missing rfl, hnonce ▸ .text rfl⟩
  obtain ⟨t, ht, hboth, hnone, -⟩ := last_write_wins (origin_of_parse hs) rewriting
  refine ⟨s, hs, origin_of_parse hs, ?_⟩
  rw [ht]
  refine ⟨?_, ?_, ?_⟩
  · obtain ⟨_, rfl, hcode, -⟩ := hboth ⟨List.replicate 20 0x11, rfl⟩
    exact hcode
  · obtain ⟨_, rfl, -, hnonce⟩ := hboth ⟨List.replicate 20 0x22, rfl⟩
    rw [hloaded] at hnonce
    exact hnonce
  · exact (hnone _).2 ⟨5, rfl⟩

end ProposalVetting.Snapshot
