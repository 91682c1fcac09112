import ProposalVetting.Json.Reading
import ProposalVetting.Json.Writer

namespace ProposalVetting.Json
open Reading

def Blank (cs : List Char) : Prop := ∀ c ∈ cs, isSpace c = true

/-- The blank space of a written form: before an item or a bracket, by depth, and behind a colon. -/
structure Spacing where
  line : Nat → List Char
  gap : List Char
  blank_line : ∀ depth, Blank (line depth)
  blank_gap : Blank gap

namespace Spacing

def tight : Spacing where
  line _ := []
  gap := []
  blank_line _ := by simp [Blank]
  blank_gap := by simp [Blank]

def wide : Spacing where
  line := newline
  gap := [' ']
  blank_line depth := by
    intro c hc
    rcases List.mem_cons.1 hc with rfl | hc
    · rfl
    · rw [List.eq_of_mem_replicate hc]
      rfl
  blank_gap := by simp [Blank, isSpace]

end Spacing

mutual

/-- The written form with any blank space. -/
def spaced (s : Spacing) (depth : Nat) : Json → List Char
  | .null => ['n', 'u', 'l', 'l']
  | .bool true => ['t', 'r', 'u', 'e']
  | .bool false => ['f', 'a', 'l', 's', 'e']
  | .number n => n.text.toList
  | .text t => Text.write t
  | .array [] => ['[', ']']
  | .array (v :: items) =>
    '[' :: s.line (depth + 1) ++ spaced s (depth + 1) v ++ spacedItems s depth items
  | .object [] => ['\x7b', '\x7d']
  | .object ((k, v) :: members) =>
    '\x7b' :: s.line (depth + 1) ++ Text.write k ++ ':' :: s.gap ++ spaced s (depth + 1) v ++
      spacedMembers s depth members

def spacedItems (s : Spacing) (depth : Nat) : List Json → List Char
  | [] => s.line depth ++ [']']
  | v :: items => ',' :: s.line (depth + 1) ++ spaced s (depth + 1) v ++ spacedItems s depth items

def spacedMembers (s : Spacing) (depth : Nat) : List (String × Json) → List Char
  | [] => s.line depth ++ ['\x7d']
  | (k, v) :: members =>
    ',' :: s.line (depth + 1) ++ Text.write k ++ ':' :: s.gap ++ spaced s (depth + 1) v ++
      spacedMembers s depth members

end

mutual

theorem compact_eq_spaced (depth : Nat) : ∀ v : Json, compact v = spaced .tight depth v
  | .null => by rw [compact, spaced]
  | .bool true => by rw [compact, spaced]
  | .bool false => by rw [compact, spaced]
  | .number n => by rw [compact, spaced]
  | .text t => by rw [compact, spaced]
  | .array [] => by rw [compact, spaced]
  | .array (v :: items) => by
    rw [compact, spaced, compact_eq_spaced (depth + 1) v, compactItems_eq_spaced depth items]
    rfl
  | .object [] => by rw [compact, spaced]
  | .object ((k, v) :: members) => by
    rw [compact, spaced, compact_eq_spaced (depth + 1) v, compactMembers_eq_spaced depth members]
    simp [Spacing.tight]

theorem compactItems_eq_spaced (depth : Nat) :
    ∀ items : List Json, compactItems items = spacedItems .tight depth items
  | [] => by rw [compactItems, spacedItems]; rfl
  | v :: items => by
    rw [compactItems, spacedItems, compact_eq_spaced (depth + 1) v,
      compactItems_eq_spaced depth items]
    rfl

theorem compactMembers_eq_spaced (depth : Nat) :
    ∀ members : List (String × Json), compactMembers members = spacedMembers .tight depth members
  | [] => by rw [compactMembers, spacedMembers]; rfl
  | (k, v) :: members => by
    rw [compactMembers, spacedMembers, compact_eq_spaced (depth + 1) v,
      compactMembers_eq_spaced depth members]
    simp [Spacing.tight]

end

mutual

theorem indented_eq_spaced (depth : Nat) : ∀ v : Json, indented depth v = spaced .wide depth v
  | .null => by rw [indented, spaced]
  | .bool true => by rw [indented, spaced]
  | .bool false => by rw [indented, spaced]
  | .number n => by rw [indented, spaced]
  | .text t => by rw [indented, spaced]
  | .array [] => by rw [indented, spaced]
  | .array (v :: items) => by
    rw [indented, spaced, indented_eq_spaced (depth + 1) v, indentedItems_eq_spaced depth items]
    rfl
  | .object [] => by rw [indented, spaced]
  | .object ((k, v) :: members) => by
    rw [indented, spaced, indented_eq_spaced (depth + 1) v, indentedMembers_eq_spaced depth members]
    simp [Spacing.wide]

theorem indentedItems_eq_spaced (depth : Nat) :
    ∀ items : List Json, indentedItems depth items = spacedItems .wide depth items
  | [] => by rw [indentedItems, spacedItems]; rfl
  | v :: items => by
    rw [indentedItems, spacedItems, indented_eq_spaced (depth + 1) v,
      indentedItems_eq_spaced depth items]
    rfl

theorem indentedMembers_eq_spaced (depth : Nat) :
    ∀ members : List (String × Json),
      indentedMembers depth members = spacedMembers .wide depth members
  | [] => by rw [indentedMembers, spacedMembers]; rfl
  | (k, v) :: members => by
    rw [indentedMembers, spacedMembers, indented_eq_spaced (depth + 1) v,
      indentedMembers_eq_spaced depth members]
    simp [Spacing.wide]

end

end ProposalVetting.Json
