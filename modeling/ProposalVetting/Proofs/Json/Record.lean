import ProposalVetting.Json.Decode
import ProposalVetting.Proofs.Failure
import ProposalVetting.Proofs.Json.Bounds

namespace ProposalVetting.Json
open Failure

/-- The members up to the first fault, by name. -/
def Members.named : Members → List (String × Reading)
  | .member (some name) value rest => (name, value) :: rest.named
  | _ => []

def Items.toList : Items → List Reading
  | .item first rest => first :: rest.toList
  | _ => []

theorem Members.Bounded.named : ∀ {ms : Members}, ms.Bounded → ∀ m ∈ ms.named, m.2.Bounded
  | .member (some _) _ _, h => List.forall_mem_cons.2 ⟨h.1, named h.2⟩
  | .member none _ _, _ => List.forall_mem_nil _
  | .closed, _ => List.forall_mem_nil _
  | .stray _ _, _ => List.forall_mem_nil _

theorem Items.Bounded.toList : ∀ {is : Items}, is.Bounded → ∀ r ∈ is.toList, r.Bounded
  | .item _ _, h => List.forall_mem_cons.2 ⟨h.1, toList h.2⟩
  | .closed, _ => List.forall_mem_nil _
  | .cut _, _ => List.forall_mem_nil _

theorem once_eq_ok_iff {α : Type} {name : String} {current x : Option α}
    {decode : Reading → Result α} {r : Reading} :
    Decode.once name current decode r = .ok x ↔
      current = none ∧ ∃ a, decode r = .ok a ∧ x = some a := by
  cases current with
  | none => cases h : decode r <;> simp [Decode.once, h, eq_comm]
  | some a => simp [Decode.once]

/-- A place for a value goes from `before` to `after` when `found` is what stands under its name. -/
inductive Filled {α : Type} (decode : Reading → Result α) (before after : Option α) :
    Option Reading → Prop where
  | kept (h : after = before) : Filled decode before after none
  | read {r : Reading} {a : α} (hbefore : before = none) (hread : decode r = .ok a)
    (h : after = some a) : Filled decode before after (some r)

/-- An empty place stays empty unless there is a value for it. -/
theorem Filled.of_none {α : Type} {decode : Reading → Result α} {after : Option α}
    {found : Option Reading} (h : Filled decode none after found) :
    found = none ∧ after = none ∨ ∃ r a, found = some r ∧ decode r = .ok a ∧ after = some a := by
  cases h with
  | kept h => exact .inl ⟨rfl, h⟩
  | read _ hread h => exact .inr ⟨_, _, rfl, hread, h⟩

namespace Layout

variable {σ α : Type} {l : Layout σ} {name : String} {get : σ → Option α}
  {decode : Reading → Result α}

/-- The value under a name: in an object a member, in a list the item at the place of the name. -/
def field? (l : Layout σ) (name : String) : Reading → Option Reading
  | .object ms => ms.named.lookup name
  | .array is => (l.fields.zip is.toList).lookup name
  | _ => none

theorem bounded_of_field? {r v : Reading} (hr : r.Bounded) (h : l.field? name r = some v) :
    v.Bounded := by
  cases r with
  | object ms =>
    obtain ⟨before, behind, hms, -⟩ := List.lookup_eq_some_iff.1 h
    exact Members.Bounded.named hr (name, v) (by simp [hms])
  | array is =>
    obtain ⟨before, behind, his, -⟩ := List.lookup_eq_some_iff.1 h
    have hmem : (name, v) ∈ l.fields.zip is.toList := by simp [his]
    exact Items.Bounded.toList hr v (List.of_mem_zip hmem).2
  | null => cases h
  | bool => cases h
  | number => cases h
  | text => cases h
  | broken => cases h

/-- The draft `d` is read from a value. -/
inductive Drafts (l : Layout σ) (start d : σ) : Reading → Prop where
  | object {ms : Members} (h : l.fromMembers start ms = .ok d) : Drafts l start d (.object ms)
  | array {is rest : Items} (h : l.fromItems 0 start l.fields is = .ok (d, rest)) :
    Drafts l start d (.array is)

/-- `get` is the field `name` of a draft, which is read at most once. -/
structure Field (l : Layout σ) (name : String) (get : σ → Option α)
    (decode : Reading → Result α) : Prop where
  known : name ∈ l.fields
  own : ∀ {d d' r}, l.read name d r = .ok d' →
    get d = none ∧ ∃ a, decode r = .ok a ∧ get d' = some a
  other : ∀ {n d d' r}, n ≠ name → l.read n d r = .ok d' → get d' = get d

/-- A field that is read by putting a value into its place. -/
theorem own_of_once {d d' : σ} {r : Reading} {put : Option α → σ}
    (h : (Decode.once name (get d) decode r >>= fun x => pure (put x)) = .ok d')
    (hput : ∀ x, get (put x) = x) :
    get d = none ∧ ∃ a, decode r = .ok a ∧ get d' = some a := by
  obtain ⟨x, hx, h⟩ := bind_eq_ok_iff.1 h
  obtain ⟨hbefore, a, ha, rfl⟩ := once_eq_ok_iff.1 hx
  cases h
  exact ⟨hbefore, a, ha, hput _⟩

theorem exists_drafts {start : σ} {finish : σ → Result α} {r : Reading} {a : α}
    (h : l.decode start finish r = .ok a) : ∃ d, l.Drafts start d r ∧ finish d = .ok a := by
  cases r with
  | object ms =>
    obtain ⟨d, hd, h⟩ := bind_eq_ok_iff.1 h
    exact ⟨d, .object hd, h⟩
  | array is =>
    obtain ⟨⟨d, rest⟩, hd, h⟩ := bind_eq_ok_iff.1 h
    obtain ⟨b, hb, h⟩ := bind_eq_ok_iff.1 h
    cases rest with
    | closed =>
      cases h
      exact ⟨d, .array hd, hb⟩
    | cut => cases h
    | item => cases h
  | number x => cases x <;> cases h
  | text x => cases x <;> cases h
  | null => cases h
  | bool => cases h
  | broken => cases h

/-- Once the field is read, or passed by, what comes later must not touch it again. -/
theorem Field.step (h : l.Field name get decode) {n : String} {r : Reading} {d d₁ d₂ : σ}
    (hread : l.read n d r = .ok d₁) {rest : List (String × Reading)}
    (hrest : Filled decode (get d₁) (get d₂) (rest.lookup name)) :
    Filled decode (get d) (get d₂) (((n, r) :: rest).lookup name) := by
  by_cases hn : n = name
  · subst hn
    obtain ⟨hbefore, a, ha, hafter⟩ := h.own hread
    rw [List.lookup_cons_self]
    cases hfound : rest.lookup n with
    | none =>
      rw [hfound] at hrest
      cases hrest with
      | kept hkept => exact .read hbefore ha (hkept.trans hafter)
    | some r' =>
      rw [hfound] at hrest
      cases hrest with
      | read hempty => simp [hafter] at hempty
  · rw [List.lookup_cons, beq_false_of_ne (Ne.symm hn), ← h.other hn hread]
    exact hrest

theorem Field.fromMembers (h : l.Field name get decode) : ∀ {ms : Members} {d d' : σ},
    l.fromMembers d ms = .ok d' → Filled decode (get d) (get d') (ms.named.lookup name)
  | .closed, d, d', hread => by
    cases hread
    exact .kept rfl
  | .stray .., d, d', hread => by cases hread
  | .member none .., d, d', hread => by cases hread
  | .member (some n) value rest, d, d', hread => by
    rw [Layout.fromMembers] at hread
    split at hread
    · obtain ⟨d₁, hd₁, hrest⟩ := bind_eq_ok_iff.1 hread
      exact h.step hd₁ (h.fromMembers hrest)
    · next hunknown =>
      have hn : n ≠ name := by
        rintro rfl
        exact hunknown (List.contains_iff_mem.2 h.known)
      split at hread
      · cases hread
      · obtain ⟨-, -, hrest⟩ := bind_eq_ok_iff.1 hread
        rw [Members.named, List.lookup_cons, beq_false_of_ne (Ne.symm hn)]
        exact h.fromMembers hrest

theorem Field.fromItems (h : l.Field name get decode) {fields : List String} :
    ∀ {is rest : Items} {d d' : σ} {i : Nat}, l.fromItems i d fields is = .ok (d', rest) →
      Filled decode (get d) (get d') ((fields.zip is.toList).lookup name) := by
  induction fields with
  | nil =>
    intro is rest d d' i hread
    cases hread
    exact .kept rfl
  | cons n fields ih =>
    intro is rest d d' i hread
    cases is with
    | closed =>
      rw [Layout.fromItems] at hread
      split at hread
      · cases hread
      · have hrest := ih hread
        simpa [Items.toList] using hrest
    | cut => cases hread
    | item first behind =>
      obtain ⟨d₁, hd₁, hrest⟩ := bind_eq_ok_iff.1 hread
      exact h.step hd₁ (ih hrest)

theorem Field.filled (h : l.Field name get decode) {start d : σ} {r : Reading}
    (hdrafts : l.Drafts start d r) :
    Filled decode (get start) (get d) (l.field? name r) := by
  cases hdrafts with
  | object hread => exact h.fromMembers hread
  | array hread => exact h.fromItems hread

end Layout
end ProposalVetting.Json
