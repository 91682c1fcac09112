import ProposalVetting.Proofs.Snapshot.Parsing
import Mathlib.Data.List.Pairwise

namespace ProposalVetting.Snapshot
open Json Failure

variable {document : String} {members : List (String × Reading)} {s : Snapshot}

theorem exists_reason {x : ProviderError} (h : parse document = .error x) :
    ∃ reason, x = .snapshot reason := by
  rcases bind_eq_error_iff.1 h with hread | ⟨entries, -, hload⟩
  · obtain ⟨e, -, rfl⟩ := mapError_eq_error_iff.1 hread
    exact ⟨_, rfl⟩
  · obtain ⟨_, _, _, _, -, -, hadd⟩ := foldlM_eq_error_iff.1 hload
    obtain ⟨reason, rfl, -⟩ := add_eq_error_iff.1 hadd
    exact ⟨reason, rfl⟩

theorem accounts_of_parse (hlist : Lists document members) (h : parse document = .ok s) :
    ∀ m ∈ members, ∃ e, Entry.decode m.2 = .ok e := by
  obtain ⟨entries, hentries, -⟩ := bind_eq_ok_iff.1 h
  rw [mapError_eq_ok_iff, hlist.parse_map] at hentries
  intro m hm
  obtain ⟨entry, hentry⟩ := exists_mapM_eq_ok_iff.1 ⟨entries, hentries⟩ m hm
  obtain ⟨e, he, -⟩ := bind_eq_ok_iff.1 hentry
  exact ⟨e, he⟩

theorem loaded_of_parse (hlist : Lists document members) (h : parse document = .ok s) :
    Loaded (collect (members.map entryOf)) s := by
  rw [parse_of_accounts hlist (accounts_of_parse hlist h)] at h
  exact loaded_of_addAll h

/-- Names that differ stand for addresses that differ. -/
theorem address_ne_of_parse (hlist : Lists document members) (h : parse document = .ok s)
    {m n : String × Reading} (hm : m ∈ members) (hn : n ∈ members) (hne : m.1 ≠ n.1) :
    Input.address m.1 ≠ Input.address n.1 := by
  have hkept : ∀ m ∈ members, m.1 ∈ (collect (members.map entryOf)).map Prod.fst := fun m hm => by
    rw [mem_names_collect_iff, names_map_entryOf]
    exact List.mem_map_of_mem hm
  have hapart := (loaded_of_parse hlist h).apart
  have hnames : ((collect (members.map entryOf)).map Prod.fst).Pairwise fun x y =>
    Input.address x ≠ Input.address y :=
    List.pairwise_map.2 hapart
  have : Std.Symm fun x y => Input.address x ≠ Input.address y := ⟨fun _ _ hxy => Ne.symm hxy⟩
  exact hnames.forall (hkept m hm) (hkept n hn) hne

theorem parse_keeps_last_of_each_name (hlist : Lists document members) :
    ((∃ m ∈ members, ∃ n ∈ members, m.1 ≠ n.1 ∧
        ∃ a, Input.address m.1 = .ok a ∧ Input.address n.1 = .ok a) →
      ∃ reason, parse document = .error (.snapshot reason)) ∧
    ∀ s, parse document = .ok s → s.size = (members.map Prod.fst).dedup.length ∧
      ∀ before m behind, members = before ++ m :: behind → m.1 ∉ behind.map Prod.fst →
        ∃ a code nonce, Input.address m.1 = .ok a ∧ Entry.Code m.2 (.ok code) ∧
          Entry.Nonce m.2 (.ok nonce) ∧ s.get? a = some ⟨code, nonce⟩ := by
  refine ⟨?_, fun s hs => ⟨?_, ?_⟩⟩
  · rintro ⟨m, hm, n, hn, hne, a, hma, hna⟩
    cases hparse : parse document with
    | ok s => exact absurd (hma.trans hna.symm) (address_ne_of_parse hlist hparse hm hn hne)
    | error x =>
      obtain ⟨reason, rfl⟩ := exists_reason hparse
      exact ⟨reason, rfl⟩
  · rw [(loaded_of_parse hlist hs).size, length_collect, names_map_entryOf]
  · rintro before m behind rfl hlast
    have hm : m ∈ before ++ m :: behind := by simp
    refine (loaded_of_parse hlist hs).written ?_
      ⟨hlist.bounded m hm, accounts_of_parse hlist hs m hm⟩
    refine mem_collect_iff.2 ⟨before.map entryOf, behind.map entryOf, by simp, ?_⟩
    rw [names_map_entryOf]
    exact hlast

/-- An account of which only the nonce is written. -/
def withNonce (n : Int) : Reading :=
  .object (.member (some "nonce") (.number (some (.integer n))) .closed)

/-- Two spellings of one address. -/
def respelled : String :=
  "\x7b\"0xaaaaaaaaaaaaaaaaaaaaaaaaaaaaaaaaaaaaaaaa\": \x7b\"nonce\": 1\x7d,
   \"0xAAAAAAAAAAAAAAAAAAAAAAAAAAAAAAAAAAAAAAAA\": \x7b\"nonce\": 2\x7d\x7d"

set_option maxRecDepth 4000 in
theorem lists_respelled :
    Lists respelled
      [("0xaaaaaaaaaaaaaaaaaaaaaaaaaaaaaaaaaaaaaaaa", withNonce 1),
       ("0xAAAAAAAAAAAAAAAAAAAAAAAAAAAAAAAAAAAAAAAA", withNonce 2)] := .of_read rfl

theorem respelled_is_refused : ∃ reason, parse respelled = .error (.snapshot reason) := by
  have hne : "0xaaaaaaaaaaaaaaaaaaaaaaaaaaaaaaaaaaaaaaaa" ≠
      "0xAAAAAAAAAAAAAAAAAAAAAAAAAAAAAAAAAAAAAAAA" := by decide
  exact (parse_keeps_last_of_each_name lists_respelled).1 ⟨_, .head _, _, .tail _ (.head _), hne,
    ⟨List.replicate 20 0xaa, rfl⟩, by decide +kernel, by decide +kernel⟩

/-- The same name twice. -/
def repeated : String :=
  "\x7b\"0x1111111111111111111111111111111111111111\": \x7b\"nonce\": 1\x7d,
   \"0x1111111111111111111111111111111111111111\": \x7b\"nonce\": 2\x7d\x7d"

def repeatedMembers : List (String × Reading) :=
  [("0x1111111111111111111111111111111111111111", withNonce 1),
   ("0x1111111111111111111111111111111111111111", withNonce 2)]

set_option maxRecDepth 4000 in
theorem lists_repeated : Lists repeated repeatedMembers := .of_read rfl

theorem storable_withNonce {name : String} {a : Address} (h : Input.address name = .ok a)
    (n : Int) :
    Storable [(name, withNonce n)] where
  addresses := List.forall_mem_singleton.2 ⟨a, h⟩
  apart := List.pairwise_singleton _ _
  codes := List.forall_mem_singleton.2 fun _ htext => nomatch htext
  nonces := List.forall_mem_singleton.2 fun _ htext => nomatch htext

/-- Each of the two members could be stored and they name one account, yet the document is loaded,
as one account. -/
theorem repeated_is_loaded :
    ∃ m n, Lists repeated [m, n] ∧ (∀ d ∈ [m, n], (∃ e, Entry.decode d.2 = .ok e) ∧ Storable [d]) ∧
      Input.address m.1 = Input.address n.1 ∧ ∃ s, parse repeated = .ok s ∧ s.size = 1 := by
  have haddress : Input.address "0x1111111111111111111111111111111111111111" =
      .ok ⟨List.replicate 20 0x11, rfl⟩ := by
    decide +kernel
  have haccounts : ∀ m ∈ repeatedMembers, (∃ e, Entry.decode m.2 = .ok e) ∧ Storable [m] :=
    List.forall_mem_cons.2 ⟨⟨⟨_, rfl⟩, storable_withNonce haddress 1⟩,
      List.forall_mem_singleton.2 ⟨⟨_, rfl⟩, storable_withNonce haddress 2⟩⟩
  refine ⟨_, _, lists_repeated, haccounts, rfl, ?_⟩
  have hsize : (addAll (collect (repeatedMembers.map entryOf))).toOption.map size = some 1 := by
    decide +kernel
  rw [parse_of_accounts lists_repeated fun m hm => (haccounts m hm).1]
  cases hload : addAll (collect (repeatedMembers.map entryOf)) with
  | error e => simp [hload, Except.toOption] at hsize
  | ok s => exact ⟨s, rfl, by simpa [hload, Except.toOption] using hsize⟩

end ProposalVetting.Snapshot
