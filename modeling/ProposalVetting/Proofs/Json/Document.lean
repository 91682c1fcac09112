import ProposalVetting.Proofs.Json.Record

namespace ProposalVetting.Json
open Failure

variable {α : Type} {decode : Reading → Result α} {document : String}
  {members : List (String × Reading)}

/-- An object that is closed behind these members. -/
def Members.ofList : List (String × Reading) → Members
  | [] => .closed
  | (name, value) :: rest => .member (some name) value (ofList rest)

/-- The document is one object, with these members in this order. -/
def Lists (document : String) (members : List (String × Reading)) : Prop :=
  ∃ rest, read document.toList = (.object (.ofList members), rest) ∧ Reading.skipSpace rest = []

/-- The characters of a document are read as they stand. -/
theorem read_ofList {cs : List Char} {r : Reading} (h : read cs = (r, [])) :
    read (String.ofList cs).toList = (r, []) :=
  (congrArg read String.toList_ofList).trans h

theorem Lists.of_read {cs : List Char} (h : read cs = (.object (.ofList members), [])) :
    Lists (String.ofList cs) members := ⟨[], read_ofList h, rfl⟩

/-- Decoding a document of which only blank space is left is decoding its tree. -/
theorem parse_of_read {r : Reading} {rest : List Char} (h : read document.toList = (r, rest))
    (hrest : Reading.skipSpace rest = []) : parse decode document = decode r := by
  rw [parse, h]
  dsimp only
  cases decode r with
  | error e => rfl
  | ok a => exact if_pos hrest

theorem Members.named_ofList (members : List (String × Reading)) :
    (ofList members).named = members := by
  induction members with
  | nil => rfl
  | cons m rest ih => rw [ofList, named, ih]

theorem Lists.bounded (h : Lists document members) : ∀ m ∈ members, m.2.Bounded := by
  obtain ⟨rest, hread, -⟩ := h
  have hbounded := bounded_read document.toList
  rw [hread] at hbounded
  rw [← Members.named_ofList members]
  exact Members.Bounded.named hbounded

theorem members_ofList (members : List (String × Reading)) :
    Decode.members decode (.ofList members) = members.mapM fun m => return (m.1, ← decode m.2) := by
  induction members with
  | nil => rfl
  | cons m rest ih =>
    rw [Members.ofList, Decode.members, List.mapM_cons, ih]
    cases decode m.2 <;> rfl

/-- What follows the object is looked at last, and there is nothing wrong with it. -/
theorem Lists.parse_map (h : Lists document members) :
    parse (Decode.map decode) document = members.mapM fun m => return (m.1, ← decode m.2) := by
  obtain ⟨rest, hread, hrest⟩ := h
  rw [parse_of_read hread hrest, ← members_ofList]
  rfl

/-- Members that can be decoded are all named, and there is nothing wrong behind them. -/
theorem Members.eq_ofList_of_members : ∀ {ms : Members} {found : List (String × α)},
    Decode.members decode ms = .ok found → ∃ members, ms = .ofList members
  | .closed, _, _ => ⟨[], rfl⟩
  | .stray _ _, _, h => by cases h
  | .member none _ _, _, h => by cases h
  | .member (some name) value rest, _, h => by
    obtain ⟨_, -, h⟩ := bind_eq_ok_iff.1 h
    obtain ⟨_, hrest, -⟩ := bind_eq_ok_iff.1 h
    obtain ⟨members, rfl⟩ := eq_ofList_of_members hrest
    exact ⟨(name, value) :: members, rfl⟩

theorem exists_lists_of_parse_map {found : List (String × α)}
    (h : parse (Decode.map decode) document = .ok found) :
    ∃ members, Lists document members := by
  unfold parse at h
  cases hread : read document.toList with
  | mk r rest =>
    rw [hread] at h
    obtain ⟨found, hfound, hrest⟩ := bind_eq_ok_iff.1 h
    unfold Decode.map at hfound
    split at hfound
    · obtain ⟨members, rfl⟩ := Members.eq_ofList_of_members hfound
      split at hrest
      · next hblank => exact ⟨members, rest, hread, hblank⟩
      · cases hrest
    · unfold Reading.mismatch at hfound
      split at hfound <;> cases hfound

end ProposalVetting.Json
