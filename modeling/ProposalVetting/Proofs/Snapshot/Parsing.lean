import ProposalVetting.Check.Lookup
import ProposalVetting.Proofs.Json.Document
import ProposalVetting.Proofs.Snapshot.Account
import ProposalVetting.Proofs.Snapshot.Collect
import ProposalVetting.Proofs.Snapshot.Loading
import ProposalVetting.Proofs.Text.Utf8

namespace ProposalVetting.Snapshot
open Json Failure

variable {document : String} {members others before behind : List (String × Reading)}
  {m : String × Reading} {s : Snapshot} {reason : String}

/-- Every member can be stored, under an address of its own. -/
structure Storable (members : List (String × Reading)) : Prop where
  addresses : ∀ m ∈ members, ∃ a, Input.address m.1 = .ok a
  apart : members.Pairwise fun m n => Input.address m.1 ≠ Input.address n.1
  codes : ∀ m ∈ members, ∀ text, Entry.layout.field? "code" m.2 = some (.text (some text)) →
    ∃ bytes, Input.code text = .ok bytes
  nonces : ∀ m ∈ members, ∀ text, Entry.layout.field? "nonce" m.2 = some (.text (some text)) →
    ∃ n, Input.nonce text = .ok n

/-- Why a member cannot be stored after the members before it; what is wrong first decides. -/
inductive Offence (before : List (String × Reading)) (m : String × Reading) : String → Prop where
  | address {cause : InputError} (h : Input.address m.1 = .error cause) :
    Offence before m cause.message
  | code {a : Address} {cause : InputError} (haddress : Input.address m.1 = .ok a)
    (h : Entry.Code m.2 (.error cause)) :
    Offence before m (m.1 ++ ": " ++ cause.message)
  | nonce {a : Address} {code : Option (List UInt8)} {cause : InputError}
    (haddress : Input.address m.1 = .ok a) (hcode : Entry.Code m.2 (.ok code))
    (h : Entry.Nonce m.2 (.error cause)) :
    Offence before m (m.1 ++ ": " ++ cause.message)
  | duplicate {a : Address} {code : Option (List UInt8)} {nonce : UInt64}
    {earlier : String × Reading} (haddress : Input.address m.1 = .ok a)
    (hcode : Entry.Code m.2 (.ok code)) (hnonce : Entry.Nonce m.2 (.ok nonce))
    (hearlier : earlier ∈ before) (h : Input.address earlier.1 = .ok a) :
    Offence before m ("duplicate entry for " ++ a.checksum)

/-- The offence of the first member that cannot be stored after those before it. -/
def FirstOffence (members : List (String × Reading)) (reason : String) : Prop :=
  ∃ before m behind, members = before ++ m :: behind ∧ Storable before ∧ Offence before m reason

/-- The members in the order of the bytes of their names. -/
def byBytes (members : List (String × Reading)) : List (String × Reading) :=
  members.mergeSort fun m n => Input.utf8 m.1.toList ≤ Input.utf8 n.1.toList

/-- The snapshot answers for each member as it is written, and for any other address as for an
unused account. -/
structure Answers (members : List (String × Reading)) (s : Snapshot) : Prop where
  size : s.size = members.length
  written : ∀ m ∈ members, ∀ a, Input.address m.1 = .ok a →
    ∃ code nonce, Entry.Code m.2 (.ok code) ∧ Entry.Nonce m.2 (.ok nonce) ∧
      s.source.code a = .immediate code ∧ s.source.nonce a = .immediate nonce
  unused : ∀ a, (∀ m ∈ members, Input.address m.1 ≠ .ok a) →
    s.source.code a = .immediate (some []) ∧ s.source.nonce a = .immediate 0

/-- The values of the members are accounts, read from a document. -/
def Accounts (members : List (String × Reading)) : Prop :=
  ∀ m ∈ members, m.2.Bounded ∧ ∃ e, Entry.decode m.2 = .ok e

/-- The entry of a member whose value is an account. -/
def entryOf (m : String × Reading) : String × Entry := (m.1, (Entry.decode m.2).toOption.getD {})

theorem decode_eq_entryOf (h : ∃ e, Entry.decode m.2 = .ok e) :
    Entry.decode m.2 = .ok (entryOf m).2 := by
  obtain ⟨e, he⟩ := h
  rw [entryOf, he]
  rfl

theorem exists_facts_entryOf_eq (h : m.2.Bounded ∧ ∃ e, Entry.decode m.2 = .ok e) :
    ∃ code nonce, Entry.Code m.2 code ∧ Entry.Nonce m.2 nonce ∧
      (entryOf m).2.facts = code >>= fun c => nonce.map (Facts.mk c) :=
  Entry.exists_facts_eq (decode_eq_entryOf h.2) h.1

theorem names_map_entryOf (members : List (String × Reading)) :
    (members.map entryOf).map Prod.fst = members.map Prod.fst := by
  rw [List.map_map]
  rfl

theorem refused_iff_offence (hloaded : Loaded (before.map entryOf) s)
    (hm : m.2.Bounded ∧ ∃ e, Entry.decode m.2 = .ok e) :
    s.Refused (entryOf m).1 (entryOf m).2 reason ↔ Offence before m reason := by
  obtain ⟨code, nonce, hcode, hnonce, hfacts⟩ := exists_facts_entryOf_eq hm
  constructor
  · intro h
    cases h with
    | address h => exact .address h
    | facts haddress h =>
      rw [hfacts] at h
      rcases bind_eq_error_iff.1 h with rfl | ⟨c, rfl, h⟩
      · exact .code haddress hcode
      · obtain rfl := map_eq_error_iff.1 h
        exact .nonce haddress hcode hnonce
    | duplicate haddress hread h =>
      rw [hfacts] at hread
      obtain ⟨c, rfl, hread⟩ := bind_eq_ok_iff.1 hread
      obtain ⟨n, rfl, -⟩ := map_eq_ok_iff.1 hread
      obtain ⟨_, hd, hda⟩ := hloaded.known _ (Option.isSome_iff_ne_none.1 h)
      obtain ⟨earlier, hearlier, rfl⟩ := List.mem_map.1 hd
      exact .duplicate haddress hcode hnonce hearlier hda
  · intro h
    cases h with
    | address h => exact .address h
    | code haddress h =>
      refine .facts haddress ?_
      rw [hfacts, hcode.unique h]
      rfl
    | nonce haddress hc h =>
      refine .facts haddress ?_
      rw [hfacts, hcode.unique hc, hnonce.unique h]
      rfl
    | @duplicate a c n earlier haddress hc hn hearlier h =>
      have hread : (entryOf m).2.facts = .ok ⟨c, n⟩ := by
        rw [hfacts, hcode.unique hc, hnonce.unique hn]
        rfl
      obtain ⟨b, facts, hb, -, hstored⟩ := hloaded.stored _ (List.mem_map_of_mem hearlier)
      cases hb.symm.trans h
      exact .duplicate haddress hread (by simp [hstored])

theorem Loaded.written {entries : List (String × Entry)} (hloaded : Loaded entries s)
    (hm : entryOf m ∈ entries) (haccount : m.2.Bounded ∧ ∃ e, Entry.decode m.2 = .ok e) :
    ∃ a code nonce, Input.address m.1 = .ok a ∧ Entry.Code m.2 (.ok code) ∧
      Entry.Nonce m.2 (.ok nonce) ∧ s.get? a = some ⟨code, nonce⟩ := by
  obtain ⟨code, nonce, hcode, hnonce, hfacts⟩ := exists_facts_entryOf_eq haccount
  obtain ⟨a, facts, haddress, hread, hstored⟩ := hloaded.stored _ hm
  rw [hfacts] at hread
  obtain ⟨c, rfl, hread⟩ := bind_eq_ok_iff.1 hread
  obtain ⟨n, rfl, rfl⟩ := map_eq_ok_iff.1 hread
  exact ⟨a, c, n, haddress, hcode, hnonce, hstored⟩

theorem Storable.not_offence (h : Storable (before ++ m :: behind)) :
    ¬ Offence before m reason := by
  have hm : m ∈ before ++ m :: behind := by simp
  intro hoffence
  cases hoffence with
  | address herror =>
    obtain ⟨a, ha⟩ := h.addresses m hm
    exact nomatch ha.symm.trans herror
  | code _ herror =>
    obtain ⟨text, htext, herror⟩ := herror.exists_text
    obtain ⟨bytes, hbytes⟩ := h.codes m hm text htext
    exact nomatch hbytes.symm.trans herror
  | nonce _ _ herror =>
    obtain ⟨text, htext, herror⟩ := herror.exists_text
    obtain ⟨n, hn⟩ := h.nonces m hm text htext
    exact nomatch hn.symm.trans herror
  | duplicate haddress _ _ hearlier hsame =>
    have hapart := (List.pairwise_append.1 h.apart).2.2 _ hearlier m List.mem_cons_self
    exact hapart (hsame.trans haddress.symm)

/-- The members before the one that fails have been stored, which is all that its offence depends
on. -/
theorem addAll_eq_error_iff {x : ProviderError} (h : Accounts members) :
    addAll (members.map entryOf) = .error x ↔
      ∃ reason, x = .snapshot reason ∧ ∃ before m behind, members = before ++ m :: behind ∧
        (∃ s, addAll (before.map entryOf) = .ok s) ∧ Offence before m reason := by
  rw [addAll, foldlM_eq_error_iff]
  constructor
  · rintro ⟨_, _, _, s, hsplit, hs, hadd⟩
    obtain ⟨before, rest, rfl, rfl, hrest⟩ := List.map_eq_append_iff.1 hsplit
    obtain ⟨m, behind, rfl, rfl, -⟩ := List.map_eq_cons_iff.1 hrest
    obtain ⟨reason, rfl, hrefused⟩ := add_eq_error_iff.1 hadd
    exact ⟨reason, rfl, before, m, behind, rfl, ⟨s, hs⟩,
      (refused_iff_offence (loaded_of_addAll hs) (h m (by simp))).1 hrefused⟩
  · rintro ⟨reason, rfl, before, m, behind, rfl, ⟨s, hs⟩, hoffence⟩
    refine ⟨before.map entryOf, entryOf m, behind.map entryOf, s, by simp, hs,
      add_eq_error_iff.2 ⟨reason, rfl, ?_⟩⟩
    exact (refused_iff_offence (loaded_of_addAll hs) (h m (by simp))).2 hoffence

theorem exists_addAll_iff (h : Accounts members) :
    (∃ s, addAll (members.map entryOf) = .ok s) ↔ Storable members := by
  constructor
  · rintro ⟨s, hs⟩
    have hloaded := loaded_of_addAll hs
    have hwritten : ∀ m ∈ members, _ :=
      fun m hm => hloaded.written (List.mem_map_of_mem hm) (h m hm)
    have hapart := hloaded.apart
    rw [List.pairwise_map] at hapart
    refine ⟨fun m hm => ?_, hapart, fun m hm text htext => ?_, fun m hm text htext => ?_⟩
    · obtain ⟨a, c, n, ha, -⟩ := hwritten m hm
      exact ⟨a, ha⟩
    · obtain ⟨a, c, n, -, hc, -⟩ := hwritten m hm
      obtain ⟨bytes, hbytes, -⟩ := map_eq_ok_iff.1 ((Entry.Code.text htext).unique hc)
      exact ⟨bytes, hbytes⟩
    · obtain ⟨a, c, n, -, -, hn, -⟩ := hwritten m hm
      exact ⟨n, (Entry.Nonce.text htext).unique hn⟩
  · intro hstorable
    -- a failure would be the offence of a member, and there is none
    by_contra hfail
    obtain ⟨x, hx⟩ := not_ok_iff.1 hfail
    obtain ⟨reason, -, before, m, behind, rfl, -, hoffence⟩ := (addAll_eq_error_iff h).1 hx
    exact hstorable.not_offence hoffence

theorem addAll_eq_error_iff_firstOffence {x : ProviderError} (h : Accounts members) :
    addAll (members.map entryOf) = .error x ↔
      ∃ reason, x = .snapshot reason ∧ FirstOffence members reason := by
  rw [addAll_eq_error_iff h]
  constructor
  · rintro ⟨reason, rfl, before, m, behind, rfl, hbefore, hoffence⟩
    have haccounts : Accounts before := fun d hd => h d (List.mem_append_left _ hd)
    exact ⟨reason, rfl, before, m, behind, rfl, (exists_addAll_iff haccounts).1 hbefore, hoffence⟩
  · rintro ⟨reason, rfl, before, m, behind, rfl, hbefore, hoffence⟩
    have haccounts : Accounts before := fun d hd => h d (List.mem_append_left _ hd)
    exact ⟨reason, rfl, before, m, behind, rfl, (exists_addAll_iff haccounts).2 hbefore, hoffence⟩

theorem Loaded.answers (hloaded : Loaded (members.map entryOf) s) (h : Accounts members) :
    Answers members s where
  size := by rw [hloaded.size, List.length_map]
  written m hm a ha := by
    obtain ⟨b, code, nonce, hb, hcode, hnonce, hstored⟩ :=
      hloaded.written (List.mem_map_of_mem hm) (h m hm)
    cases hb.symm.trans ha
    have hlookup : s.lookup a = ⟨code, nonce⟩ := by
      rw [lookup, hstored]
      rfl
    exact ⟨code, nonce, hcode, hnonce, congrArg (fun f : Facts => Lookup.immediate f.code) hlookup,
      congrArg (fun f : Facts => Lookup.immediate f.nonce) hlookup⟩
  unused a ha := by
    have habsent : s.get? a = none := by
      by_contra hfound
      obtain ⟨_, hd, hda⟩ := hloaded.known a hfound
      obtain ⟨m, hm, rfl⟩ := List.mem_map.1 hd
      exact ha m hm hda
    have hlookup : s.lookup a = .unused := by
      rw [lookup, habsent]
      rfl
    exact ⟨congrArg (fun f : Facts => Lookup.immediate f.code) hlookup,
      congrArg (fun f : Facts => Lookup.immediate f.nonce) hlookup⟩

theorem Answers.of_perm (h : Answers others s) (hperm : others.Perm members) :
    Answers members s where
  size := h.size.trans hperm.length_eq
  written m hm := h.written m (hperm.mem_iff.2 hm)
  unused a ha := h.unused a fun m hm => ha m (hperm.mem_iff.1 hm)

theorem Storable.of_perm (h : Storable others) (hperm : others.Perm members) :
    Storable members where
  addresses m hm := h.addresses m (hperm.mem_iff.2 hm)
  apart := (hperm.pairwise_iff fun hne => Ne.symm hne).1 h.apart
  codes m hm := h.codes m (hperm.mem_iff.2 hm)
  nonces m hm := h.nonces m (hperm.mem_iff.2 hm)

theorem byBytes_perm (members : List (String × Reading)) : (byBytes members).Perm members :=
  List.mergeSort_perm ..

/-- Bytes and names stand in the same order. -/
theorem ascending_byBytes (h : (members.map Prod.fst).Nodup) :
    Ascending ((byBytes members).map entryOf) := by
  have hle : ∀ s t : String, Input.utf8 s.toList ≤ Input.utf8 t.toList ↔ s ≤ t := fun s t => by
    rw [← not_lt (a := t), Input.lt_iff_utf8_lt]
    exact Iff.rfl
  have hsorted : (byBytes members).Pairwise fun m n => m.1 ≤ n.1 := by
    have hpairwise : (byBytes members).Pairwise fun m n =>
        decide (Input.utf8 m.1.toList ≤ Input.utf8 n.1.toList) := by
      refine List.pairwise_mergeSort (fun a b c hab hbc => ?_) (fun a b => ?_) members
      · simp only [decide_eq_true_eq, hle] at hab hbc ⊢
        exact le_trans hab hbc
      · simp only [Bool.or_eq_true, decide_eq_true_eq, hle]
        exact le_total a.1 b.1
    simpa only [decide_eq_true_eq, hle] using hpairwise
  have hne : (byBytes members).Pairwise fun m n => m.1 ≠ n.1 :=
    List.pairwise_map.1 (((byBytes_perm members).map Prod.fst).nodup_iff.2 h)
  exact List.pairwise_map.2 ((hsorted.and hne).imp fun h => lt_of_le_of_ne h.1 h.2)

theorem collect_map_entryOf (h : (members.map Prod.fst).Nodup) (hperm : others.Perm members) :
    collect (others.map entryOf) = (byBytes members).map entryOf :=
  collect_eq_of_ascending (ascending_byBytes h)
    (((byBytes_perm members).trans hperm.symm).map entryOf)

theorem parse_of_accounts (hlist : Lists document members)
    (h : ∀ m ∈ members, ∃ e, Entry.decode m.2 = .ok e) :
    parse document = addAll (collect (members.map entryOf)) := by
  have hentries : members.mapM (fun m => return (m.1, ← Entry.decode m.2)) =
      Except.ok (members.map entryOf) := by
    refine mapM_eq_ok_iff.2 (List.forall₂_map_right_iff.2 (List.forall₂_same.2 fun m hm => ?_))
    rw [decode_eq_entryOf (h m hm)]
    rfl
  rw [parse, hlist.parse_map, hentries]
  rfl

section Accounts

variable (hlist : Lists document members) (hnames : (members.map Prod.fst).Nodup)
  (haccounts : ∀ m ∈ members, ∃ e, Entry.decode m.2 = .ok e)
include hlist haccounts

theorem accounts_byBytes : Accounts (byBytes members) := fun m hm =>
  have hmem := (byBytes_perm members).mem_iff.1 hm
  ⟨hlist.bounded m hmem, haccounts m hmem⟩

include hnames

/-- Accounts with different names are stored in the order of their bytes. -/
theorem parse_eq_addAll : parse document = addAll ((byBytes members).map entryOf) := by
  rw [parse_of_accounts hlist haccounts, collect_map_entryOf hnames (.refl _)]

theorem exists_parse_iff : (∃ s, parse document = .ok s) ↔ Storable members := by
  have hperm := byBytes_perm members
  rw [parse_eq_addAll hlist hnames haccounts, exists_addAll_iff (accounts_byBytes hlist haccounts)]
  exact ⟨fun h => h.of_perm hperm, fun h => h.of_perm hperm.symm⟩

end Accounts

/-- A document whose names are all different and whose values are accounts is loaded exactly, or
refused for its first offence; the order of its members is immaterial. -/
theorem parse_exact (hlist : Lists document members) (hnames : (members.map Prod.fst).Nodup)
    (haccounts : ∀ m ∈ members, ∃ e, Entry.decode m.2 = .ok e) :
    ((∃ s, parse document = .ok s) ↔ Storable members) ∧
    (∀ s, parse document = .ok s → Answers members s) ∧
    (∀ x, parse document = .error x ↔
      ∃ reason, x = .snapshot reason ∧ FirstOffence (byBytes members) reason) ∧
    ∀ permuted others, Lists permuted others → others.Perm members →
      parse permuted = parse document := by
  have hsorted := accounts_byBytes hlist haccounts
  have hparse := parse_eq_addAll hlist hnames haccounts
  refine ⟨exists_parse_iff hlist hnames haccounts, fun s hs => ?_, fun x => ?_,
    fun permuted others hpermuted hothers => ?_⟩
  · exact ((loaded_of_addAll (hparse ▸ hs)).answers hsorted).of_perm (byBytes_perm members)
  · rw [hparse, addAll_eq_error_iff_firstOffence hsorted]
  · rw [hparse, parse_of_accounts hpermuted fun m hm => haccounts m (hothers.mem_iff.1 hm),
      collect_map_entryOf hnames hothers]

/-- Two accounts, the one with the later name first. -/
def pair : String :=
  "\x7b\"0x2222222222222222222222222222222222222222\": \x7b\"nonce\": \"0x5\"\x7d,
   \"0x1111111111111111111111111111111111111111\": \x7b\"code\": null\x7d\x7d"

def swapped : String :=
  "\x7b\"0x1111111111111111111111111111111111111111\": \x7b\"code\": null\x7d,
   \"0x2222222222222222222222222222222222222222\": \x7b\"nonce\": \"0x5\"\x7d\x7d"

def pairMembers : List (String × Reading) :=
  [("0x2222222222222222222222222222222222222222",
    .object (.member (some "nonce") (.text (some "0x5")) .closed)),
   ("0x1111111111111111111111111111111111111111", .object (.member (some "code") .null .closed))]

set_option maxRecDepth 4000 in
theorem lists_pair : Lists pair pairMembers := .of_read rfl

set_option maxRecDepth 4000 in
theorem lists_swapped : Lists swapped pairMembers.reverse := .of_read rfl

theorem storable_pair : Storable pairMembers where
  addresses := List.forall_mem_cons.2 ⟨⟨⟨List.replicate 20 0x22, rfl⟩, by decide +kernel⟩,
    List.forall_mem_singleton.2 ⟨⟨List.replicate 20 0x11, rfl⟩, by decide +kernel⟩⟩
  apart := by decide +kernel
  codes m hm text htext := by
    rcases List.mem_pair.1 hm with rfl | rfl <;> cases htext
  nonces m hm text htext := by
    rcases List.mem_pair.1 hm with rfl | rfl
    · cases htext
      exact ⟨5, by decide +kernel⟩
    · cases htext

/-- Both orders of the two accounts make the same snapshot. -/
theorem pair_in_either_order :
    parse swapped = parse pair ∧ ∃ s, parse pair = .ok s ∧ Answers pairMembers s := by
  have haccounts : ∀ m ∈ pairMembers, ∃ e, Entry.decode m.2 = .ok e :=
    List.forall_mem_cons.2 ⟨⟨_, rfl⟩, List.forall_mem_singleton.2 ⟨_, rfl⟩⟩
  obtain ⟨hloaded, hanswers, -, hperm⟩ := parse_exact lists_pair (by decide) haccounts
  obtain ⟨s, hs⟩ := hloaded.2 storable_pair
  exact ⟨hperm swapped _ lists_swapped (List.reverse_perm _), s, hs, hanswers s hs⟩

end ProposalVetting.Snapshot
