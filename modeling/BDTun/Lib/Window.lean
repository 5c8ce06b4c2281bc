import Mathlib.Algebra.GroupWithZero.Nat
import Mathlib.Data.List.Infix

/-!
# The longest prefix within a limit and a budget

`longest size limit budget l` takes things from the front of `l`: at most `limit`
of them, and only while their sizes fit in `budget`.

* `longest_spec`: of the prefixes that obey both, it is the longest, and the only
  one (`IsLongest.unique`).
* `lt_length_longest`: what must hold for it to have more than `n` things.
* `longest_succ`: one more in the limit is one more thing, if there is one that fits.
-/

namespace Window

variable {α : Type}

/-- The sizes of a list of things, together. -/
def total (size : α → Nat) (l : List α) : Nat := (l.map size).sum

def longest (size : α → Nat) : Nat → Nat → List α → List α
  | _, _, [] => []
  | 0, _, _ :: _ => []
  | limit + 1, budget, a :: rest =>
    if size a ≤ budget then a :: longest size limit (budget - size a) rest else []

/-- `w` is a prefix of `l` within both bounds, and no such prefix is longer. -/
structure IsLongest (size : α → Nat) (limit budget : Nat) (l w : List α) : Prop where
  front : w <+: l
  few : w.length ≤ limit
  fits : total size w ≤ budget
  most : ∀ v, v <+: l → v.length ≤ limit → total size v ≤ budget → v.length ≤ w.length

@[simp] theorem total_nil (size : α → Nat) : total size [] = 0 := rfl

@[simp] theorem total_cons (size : α → Nat) (a : α) (l : List α) :
    total size (a :: l) = size a + total size l := by
  simp [total]

/-- If nothing is of size 0, the total tells prefixes apart. -/
theorem eq_of_total_eq {size : α → Nat} (hpos : ∀ a, 0 < size a) {v w : List α} (h : v <+: w)
    (htotal : total size v = total size w) : v = w := by
  obtain ⟨more, rfl⟩ := h
  have happend : total size (v ++ more) = total size v + total size more := by simp [total]
  cases more with
  | nil => rw [List.append_nil]
  | cons a more =>
    have ha := hpos a
    rw [total_cons] at happend
    omega

theorem longest_front (size : α → Nat) (limit budget : Nat) (l : List α) :
    longest size limit budget l <+: l := by
  induction l generalizing limit budget with
  | nil => cases limit <;> exact List.nil_prefix
  | cons a l ih =>
    cases limit with
    | zero => exact List.nil_prefix
    | succ limit =>
      unfold longest
      split
      · exact List.cons_prefix_cons.mpr ⟨rfl, ih _ _⟩
      · exact List.nil_prefix

/-- **How many**: more than `n`, if there are that many, the limit allows them, and they fit. -/
theorem lt_length_longest (size : α → Nat) (limit budget : Nat) (l : List α) (n : Nat) :
    n < (longest size limit budget l).length ↔
      n < l.length ∧ n < limit ∧ total size (l.take (n + 1)) ≤ budget := by
  induction l generalizing limit budget n with
  | nil => cases limit <;> simp [longest]
  | cons a l ih =>
    cases limit with
    | zero => simp [longest]
    | succ limit =>
      unfold longest
      rw [List.take_succ_cons, total_cons, List.length_cons]
      split
      · next hfits =>
        rw [List.length_cons]
        cases n with
        | zero =>
          rw [List.take_zero, total_nil]
          omega
        | succ n =>
          have hrest := ih limit (budget - size a) n
          omega
      · next hfits =>
        rw [List.length_nil]
        omega

/-- A prefix is so many things of the list. -/
theorem longest_eq_take (size : α → Nat) (limit budget : Nat) (l : List α) :
    longest size limit budget l = l.take (longest size limit budget l).length :=
  List.prefix_iff_eq_take.mp (longest_front size limit budget l)

/-- **It is the longest.** -/
theorem longest_spec (size : α → Nat) (limit budget : Nat) (l : List α) :
    IsLongest size limit budget l (longest size limit budget l) := by
  have hmore := lt_length_longest size limit budget l
  have htake := longest_eq_take size limit budget l
  generalize longest size limit budget l = w at hmore htake
  refine ⟨?_, ?_, ?_, ?_⟩
  · rw [htake]
    exact List.take_prefix _ _
  · by_contra hlong
    have := ((hmore limit).mp (by omega)).2.1
    omega
  · cases hlen : w.length with
    | zero =>
      rw [List.length_eq_zero_iff.mp hlen, total_nil]
      omega
    | succ n =>
      rw [htake, hlen]
      exact ((hmore n).mp (by omega)).2.2
  · intro v hv hfew hfits
    cases hlen : v.length with
    | zero => omega
    | succ n =>
      have hle := hv.length_le
      refine (hmore n).mpr ⟨by omega, by omega, ?_⟩
      rw [← hlen, ← List.prefix_iff_eq_take.mp hv]
      exact hfits

theorem IsLongest.unique {size : α → Nat} {limit budget : Nat} {l w v : List α}
    (hw : IsLongest size limit budget l w) (hv : IsLongest size limit budget l v) : w = v := by
  have hle := hv.most w hw.front hw.few hw.fits
  have hge := hw.most v hv.front hv.few hv.fits
  rw [List.prefix_iff_eq_take.mp hw.front, List.prefix_iff_eq_take.mp hv.front]
  congr 1
  omega

/-- **One more in the limit** gives one more thing exactly when there is one and it fits. -/
theorem longest_succ (size : α → Nat) (limit budget : Nat) (l : List α) :
    longest size (limit + 1) budget l = longest size limit budget l ↔
      ¬ (limit < l.length ∧ total size (l.take (limit + 1)) ≤ budget) := by
  have hmore := lt_length_longest size (limit + 1) budget l
  have hless := lt_length_longest size limit budget l
  constructor
  · rintro heq ⟨hlen, hfits⟩
    have hin := (hmore limit).mpr ⟨hlen, by omega, hfits⟩
    rw [heq, hless] at hin
    omega
  · intro hnot
    have hlength : (longest size (limit + 1) budget l).length =
        (longest size limit budget l).length := by
      apply Nat.le_antisymm
      · by_contra hlt
        obtain ⟨hl, hlim, hfits⟩ := (hmore _).mp (Nat.lt_of_not_le hlt)
        -- the limit keeps the shorter one from being longer
        by_cases hsame : (longest size limit budget l).length < limit
        · exact absurd ((hless _).mpr ⟨hl, hsame, hfits⟩) (by omega)
        · have hlimit : (longest size limit budget l).length = limit := by omega
          rw [hlimit] at hl hfits
          exact hnot ⟨hl, hfits⟩
      · by_contra hlt
        obtain ⟨hl, hlim, hfits⟩ := (hless _).mp (Nat.lt_of_not_le hlt)
        exact absurd ((hmore _).mpr ⟨hl, by omega, hfits⟩) (by omega)
    rw [longest_eq_take, hlength, ← longest_eq_take]

end Window
