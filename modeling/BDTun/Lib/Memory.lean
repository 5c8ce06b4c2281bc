import Mathlib.Logic.Function.Basic
import Mathlib.Data.List.Basic
import Mathlib.Data.Nat.Bitwise

/-!
# Memories: reading and writing lists of places, words as bytes

A memory is a function from places to contents.  `gather` reads a list of
places in order, `scatter` writes one; segments of any shape are lists of places.

* `gather_scatter`: what was written to distinct places is read back.
* `gather_scatter_of_disjoint`, `scatter_of_notMem`: other places keep theirs.
* `scatter_append`, `scatter_congr`: writing in pieces is writing at once; a whole
  write hides what was written before.
* `wordOf_wordBytes`: a word that fits its bytes comes back.
-/

namespace Memory

variable {α β : Type} [DecidableEq α]

/-- The contents of the places `ls`, in order. -/
def gather (m : α → β) (ls : List α) : List β := ls.map m

/-- Write `ds` to the places `ls`, in order; stops with the shorter list. -/
def scatter (m : α → β) : List α → List β → α → β
  | l :: ls, d :: ds => scatter (Function.update m l d) ls ds
  | _, _ => m

omit [DecidableEq α] in
theorem gather_append (m : α → β) (ls₁ ls₂ : List α) :
    gather m (ls₁ ++ ls₂) = gather m ls₁ ++ gather m ls₂ := by
  simp [gather]

omit [DecidableEq α] in
theorem gather_congr {m m' : α → β} {ls : List α} (h : ∀ l ∈ ls, m l = m' l) :
    gather m ls = gather m' ls :=
  List.map_congr_left h

@[simp] theorem scatter_nil (m : α → β) (ds : List β) : scatter m [] ds = m := by
  cases ds <;> rfl

theorem scatter_of_notMem (m : α → β) (ls : List α) (ds : List β) (a : α) (h : a ∉ ls) :
    scatter m ls ds a = m a := by
  induction ls generalizing m ds with
  | nil => simp
  | cons l ls ih =>
    cases ds with
    | nil => rfl
    | cons d ds =>
      rw [List.mem_cons, not_or] at h
      rw [scatter, ih _ _ h.2, Function.update_of_ne h.1]

theorem gather_scatter (m : α → β) (ls : List α) (ds : List β) (hl : ls.Nodup)
    (hd : ds.length = ls.length) : gather (scatter m ls ds) ls = ds := by
  induction ls generalizing m ds with
  | nil => simp_all [gather]
  | cons l ls ih =>
    cases ds with
    | nil => simp at hd
    | cons d ds =>
      rw [List.nodup_cons] at hl
      have hrest := ih (Function.update m l d) ds hl.2 (by simpa using hd)
      have hfirst : scatter (Function.update m l d) ls ds l = d := by
        rw [scatter_of_notMem _ _ _ _ hl.1, Function.update_self]
      rw [scatter]
      simp only [gather, List.map_cons] at hrest ⊢
      rw [hfirst, hrest]

theorem gather_scatter_of_disjoint (m : α → β) (ls ks : List α) (ds : List β)
    (h : ∀ l ∈ ls, l ∉ ks) : gather (scatter m ks ds) ls = gather m ls :=
  gather_congr fun l hl => scatter_of_notMem m ks ds l (h l hl)

theorem scatter_append (m : α → β) (ls₁ ls₂ : List α) (ds₁ ds₂ : List β)
    (h : ds₁.length = ls₁.length) :
    scatter m (ls₁ ++ ls₂) (ds₁ ++ ds₂) = scatter (scatter m ls₁ ds₁) ls₂ ds₂ := by
  induction ls₁ generalizing m ds₁ with
  | nil => simp_all
  | cons l ls₁ ih =>
    cases ds₁ with
    | nil => simp at h
    | cons d ds₁ => simpa [scatter] using ih (Function.update m l d) ds₁ (by simpa using h)

/-- What is written everywhere does not depend on what was there. -/
theorem scatter_congr {m m' : α → β} (ls : List α) (ds : List β) (h : ∀ a, a ∉ ls → m a = m' a)
    (hd : ls.length ≤ ds.length) : scatter m ls ds = scatter m' ls ds := by
  induction ls generalizing m m' ds with
  | nil =>
    rw [scatter_nil, scatter_nil]
    funext a
    exact h a (by simp)
  | cons l ls ih =>
    cases ds with
    | nil => simp at hd
    | cons d ds =>
      rw [scatter, scatter]
      refine ih ds (fun a ha => ?_) (by simpa using hd)
      by_cases hal : a = l
      · rw [hal, Function.update_self, Function.update_self]
      · rw [Function.update_of_ne hal, Function.update_of_ne hal]
        exact h a (by simp [hal, ha])

/-! ## Words as bytes -/

/-- The `n` low bytes of a word, least significant first. -/
def wordBytes : Nat → Nat → List UInt8
  | 0, _ => []
  | n + 1, w => UInt8.ofNat w :: wordBytes n (w / 256)

/-- The word that bytes stand for. -/
def wordOf (bs : List UInt8) : Nat := bs.foldr (fun b w => b.toNat + 256 * w) 0

@[simp] theorem length_wordBytes (n w : Nat) : (wordBytes n w).length = n := by
  induction n generalizing w with
  | zero => rfl
  | succ n ih => simp [wordBytes, ih]

theorem wordOf_wordBytes (n w : Nat) (h : w < 256 ^ n) : wordOf (wordBytes n w) = w := by
  induction n generalizing w with
  | zero =>
    have hw : w = 0 := by omega
    subst hw
    rfl
  | succ n ih =>
    have hq : w / 256 < 256 ^ n := by
      rw [Nat.div_lt_iff_lt_mul (by decide)]; rwa [Nat.pow_succ] at h
    have := ih _ hq
    simp only [wordOf, wordBytes, List.foldr_cons] at this ⊢
    rw [this, UInt8.toNat_ofNat']
    omega

theorem wordOf_lt (bs : List UInt8) : wordOf bs < 256 ^ bs.length := by
  induction bs with
  | nil => decide
  | cons b bs ih =>
    have hb := b.toNat_lt
    show b.toNat + 256 * wordOf bs < 256 ^ (bs.length + 1)
    rw [Nat.pow_succ]
    omega

end Memory
