import ProposalVetting.Address

namespace ProposalVetting

/-- A finite map. Its entries stand in ascending order, so maps that answer alike are equal. -/
structure AddressMap (α : Type) where
  entries : List (Address × α)
  ascending : entries.Pairwise fun x y => x.1.value < y.1.value
deriving DecidableEq

namespace AddressMap

variable {α : Type}

def empty : AddressMap α := ⟨[], .nil⟩

def put (a : Address) (v : α) : List (Address × α) → List (Address × α)
  | [] => [(a, v)]
  | e :: rest =>
    if a.value < e.1.value then (a, v) :: e :: rest
    else if a = e.1 then (a, v) :: rest
    else e :: put a v rest

theorem mem_put {a : Address} {v : α} {e : Address × α} :
    ∀ {entries : List (Address × α)}, e ∈ put a v entries → e = (a, v) ∨ e ∈ entries
  | [], h => by simpa [put] using h
  | d :: rest, h => by
    unfold put at h
    split at h
    · simpa using h
    · split at h
      · rcases List.mem_cons.1 h with h | h
        · exact .inl h
        · exact .inr (List.mem_cons_of_mem _ h)
      · rcases List.mem_cons.1 h with h | h
        · exact .inr (h ▸ List.mem_cons_self)
        · rcases mem_put h with h | h
          · exact .inl h
          · exact .inr (List.mem_cons_of_mem _ h)

theorem ascending_put (a : Address) (v : α) : ∀ {entries : List (Address × α)},
    (entries.Pairwise fun x y => x.1.value < y.1.value) →
    (put a v entries).Pairwise fun x y => x.1.value < y.1.value
  | [], _ => by simp [put]
  | e :: rest, h => by
    have ⟨he, hr⟩ := List.pairwise_cons.1 h
    unfold put
    split
    · next hlt =>
      refine List.pairwise_cons.2 ⟨fun d hd => ?_, h⟩
      rcases List.mem_cons.1 hd with rfl | hd
      · exact hlt
      · exact Nat.lt_trans hlt (he d hd)
    · next hge =>
      split
      · next heq =>
        refine List.pairwise_cons.2 ⟨fun d hd => ?_, hr⟩
        simpa [heq] using he d hd
      · next hne =>
        refine List.pairwise_cons.2 ⟨fun d hd => ?_, ascending_put a v hr⟩
        rcases mem_put hd with rfl | hd
        · have : a.value ≠ e.1.value := fun h => hne (Address.value_inj h)
          show e.1.value < a.value
          omega
        · exact he d hd

def insert (m : AddressMap α) (a : Address) (v : α) : AddressMap α :=
  ⟨put a v m.entries, ascending_put a v m.ascending⟩

def get? (m : AddressMap α) (a : Address) : Option α :=
  (m.entries.find? fun e => e.1 = a).map Prod.snd

def contains (m : AddressMap α) (a : Address) : Bool := (m.get? a).isSome

def size (m : AddressMap α) : Nat := m.entries.length

def isEmpty (m : AddressMap α) : Bool := m.entries.isEmpty

/-- The addresses in ascending order. -/
def keys (m : AddressMap α) : List Address := m.entries.map Prod.fst

end AddressMap
end ProposalVetting
