import Mathlib.Data.List.Nodup

/-!
# Finite maps that keep the order of insertion

The keys are distinct by construction.  `append` adds a new key at the end,
`erase` drops one, `modify` changes the value of one where it stands; none of
them changes what `lookup` finds for another key.
-/

structure OrderedMap (κ β : Type) where
  entries : List (κ × β)
  nodup : (entries.map Prod.fst).Nodup

namespace OrderedMap

variable {κ β : Type} [DecidableEq κ]

omit [DecidableEq κ] in
@[ext] theorem ext {m n : OrderedMap κ β} (h : m.entries = n.entries) : m = n := by
  cases m
  cases n
  cases h
  rfl

def empty : OrderedMap κ β := ⟨[], List.nodup_nil⟩

def keys (m : OrderedMap κ β) : List κ := m.entries.map Prod.fst

def lookup (m : OrderedMap κ β) (k : κ) : Option β :=
  (m.entries.find? fun e => e.1 = k).map Prod.snd

/-- A new key goes to the end; a key that is there stays as it is. -/
def append (m : OrderedMap κ β) (k : κ) (v : β) : OrderedMap κ β :=
  if h : k ∈ m.keys then m
  else
    { entries := m.entries ++ [(k, v)]
      nodup := by
        rw [List.map_append, List.nodup_append']
        refine ⟨m.nodup, List.nodup_singleton k, fun a ha hk => h ?_⟩
        obtain rfl : a = k := List.mem_singleton.mp hk
        exact ha }

def erase (m : OrderedMap κ β) (k : κ) : OrderedMap κ β where
  entries := m.entries.filter fun e => e.1 ≠ k
  nodup := m.nodup.sublist (List.filter_sublist.map Prod.fst)

def modify (m : OrderedMap κ β) (k : κ) (f : β → β) : OrderedMap κ β where
  entries := m.entries.map fun e => if e.1 = k then (e.1, f e.2) else e
  nodup := by
    have hkeys : (m.entries.map fun e => if e.1 = k then (e.1, f e.2) else e).map Prod.fst =
        m.entries.map Prod.fst := by
      rw [List.map_map]
      refine List.map_congr_left ?_
      intro e _
      simp only [Function.comp]
      split <;> rfl
    rw [hkeys]
    exact m.nodup

theorem entries_append_of_notMem {m : OrderedMap κ β} {k : κ} (v : β) (h : k ∉ m.keys) :
    (m.append k v).entries = m.entries ++ [(k, v)] := by
  rw [append, dif_neg h]

theorem entries_erase (m : OrderedMap κ β) (k : κ) :
    (m.erase k).entries = m.entries.filter fun e => e.1 ≠ k := rfl

theorem entries_modify (m : OrderedMap κ β) (k : κ) (f : β → β) :
    (m.modify k f).entries = m.entries.map fun e => if e.1 = k then (e.1, f e.2) else e := rfl

theorem lookup_eq_none {m : OrderedMap κ β} {k : κ} : m.lookup k = none ↔ k ∉ m.keys := by
  rw [lookup, Option.map_eq_none_iff, List.find?_eq_none]
  simp only [keys, List.mem_map, not_exists, not_and, decide_eq_true_eq]

theorem lookup_append_of_ne (m : OrderedMap κ β) {k k' : κ} (v : β) (h : k' ≠ k) :
    (m.append k v).lookup k' = m.lookup k' := by
  by_cases hk : k ∈ m.keys
  · rw [append, dif_pos hk]
  · rw [lookup, entries_append_of_notMem v hk, List.find?_append]
    simp [h.symm, lookup]

theorem lookup_erase_of_ne (m : OrderedMap κ β) {k k' : κ} (h : k' ≠ k) :
    (m.erase k).lookup k' = m.lookup k' := by
  rw [lookup, lookup, erase, List.find?_filter]
  congr 2
  funext e
  by_cases he : e.1 = k'
  · simp [he, h]
  · simp [he]

theorem lookup_modify_of_ne (m : OrderedMap κ β) {k k' : κ} (f : β → β) (h : k' ≠ k) :
    (m.modify k f).lookup k' = m.lookup k' := by
  rw [lookup, lookup, modify, List.find?_map]
  have hsame : ((fun e : κ × β => decide (e.1 = k')) ∘
      fun e : κ × β => if e.1 = k then (e.1, f e.2) else e) = fun e => decide (e.1 = k') := by
    funext e
    simp only [Function.comp]
    split <;> rfl
  rw [hsame]
  cases hfind : m.entries.find? fun e => e.1 = k' with
  | none => rfl
  | some e =>
    have he : e.1 = k' := by simpa using List.find?_some hfind
    have hk : e.1 ≠ k := by rw [he]; exact h
    simp [hk]

end OrderedMap
