import Mathlib.Algebra.Group.Int.Defs
import Mathlib.Data.List.TakeWhile

/-!
# Decimal numbers as `strtol` reads them

`strtol` skips blanks, takes a sign and as many digits as there are, and saturates
what they stand for to a signed type of `w` bits.  `Denotes` says of a whole string
which number it is, without limits.

* `strtol_end`: nothing is left of a string exactly when it is empty or a number.
* `Denotes.strtol`: of a number it returns what it denotes, saturated.
-/

namespace Strtol

/-! ## Reading -/

def isSpace (b : UInt8) : Bool := b = 32 ∨ 9 ≤ b ∧ b ≤ 13

def isDigit (b : UInt8) : Bool := 48 ≤ b ∧ b ≤ 57

/-- The number of a row of digits. -/
def digitsValue (digits : List UInt8) : Nat :=
  digits.foldl (fun n b => 10 * n + (b - 48).toNat) 0

/-- Is there a minus, and what is after the sign. -/
def sign : List UInt8 → Bool × List UInt8
  | [] => (false, [])
  | b :: s => if b = 45 then (true, s) else if b = 43 then (false, s) else (false, b :: s)

/-- A magnitude with its sign. -/
def signed (negative : Bool) (n : Nat) : Int := if negative then -n else n

/-- The number at the start of a string, and what is after it. -/
def scan (s : List UInt8) : Option (Int × List UInt8) :=
  let t := sign (s.dropWhile isSpace)
  if t.2.takeWhile isDigit = [] then none
  else some (signed t.1 (digitsValue (t.2.takeWhile isDigit)), t.2.dropWhile isDigit)

/-- The nearest number of `w` bits. -/
def saturate (w : Nat) (v : Int) : Int := max (-2 ^ (w - 1)) (min v (2 ^ (w - 1) - 1))

/-- `strtol(s, &end, 10)` and the string at `end`. -/
def strtol (w : Nat) (s : List UInt8) : Int × List UInt8 :=
  match scan s with
  | none => (0, s)
  | some (v, rest) => (saturate w v, rest)

/-! ## Strings that are numbers -/

/-- What may stand before the digits, and whether it is a minus. -/
inductive Sign : List UInt8 → Bool → Prop
  | blank : Sign [] false
  | plus : Sign [43] false
  | minus : Sign [45] true

/-- The string is a number and nothing more: blanks, a sign if it has one, and digits. -/
inductive Denotes : List UInt8 → Int → Prop
  | intro {blanks mark digits : List UInt8} {negative : Bool}
      (hblanks : ∀ b ∈ blanks, isSpace b = true) (hmark : Sign mark negative)
      (hne : digits ≠ []) (hdigits : ∀ b ∈ digits, isDigit b = true) :
      Denotes (blanks ++ (mark ++ digits)) (signed negative (digitsValue digits))

theorem isSpace_of_isDigit {b : UInt8} (h : isDigit b = true) : isSpace b = false := by
  unfold isDigit at h
  unfold isSpace
  rw [decide_eq_true_eq, UInt8.le_iff_toNat_le, UInt8.le_iff_toNat_le] at h
  rw [decide_eq_false_iff_not, UInt8.le_iff_toNat_le, UInt8.le_iff_toNat_le, ← UInt8.toNat_inj]
  have h₁ : (48 : UInt8).toNat = 48 := rfl
  have h₂ : (32 : UInt8).toNat = 32 := rfl
  have h₃ : (13 : UInt8).toNat = 13 := rfl
  omega

theorem ne_sign_of_isDigit {b : UInt8} (h : isDigit b = true) : b ≠ 45 ∧ b ≠ 43 := by
  constructor
  · rintro rfl
    cases h
  · rintro rfl
    cases h

/-- Blanks are dropped up to a byte that is none. -/
theorem dropWhile_blanks {blanks : List UInt8} (h : ∀ b ∈ blanks, isSpace b = true) {b : UInt8}
    (hb : isSpace b = false) (s : List UInt8) :
    (blanks ++ b :: s).dropWhile isSpace = b :: s := by
  rw [List.dropWhile_append_of_pos h]
  simp [hb]

/-- The sign before digits, after blanks. -/
theorem sign_dropWhile {blanks mark digits : List UInt8} {negative : Bool}
    (hblanks : ∀ b ∈ blanks, isSpace b = true) (hmark : Sign mark negative) (hne : digits ≠ [])
    (hdigits : ∀ b ∈ digits, isDigit b = true) :
    sign ((blanks ++ (mark ++ digits)).dropWhile isSpace) = (negative, digits) := by
  cases hmark with
  | blank =>
    obtain ⟨d, ds, rfl⟩ := List.exists_cons_of_ne_nil hne
    have hd := hdigits d List.mem_cons_self
    obtain ⟨hminus, hplus⟩ := ne_sign_of_isDigit hd
    rw [List.nil_append, dropWhile_blanks hblanks (isSpace_of_isDigit hd)]
    simp only [sign, if_neg hminus, if_neg hplus]
  | plus =>
    rw [List.singleton_append, dropWhile_blanks hblanks (by decide)]
    rfl
  | minus =>
    rw [List.singleton_append, dropWhile_blanks hblanks (by decide)]
    rfl

/-- What is cut off as a sign is one. -/
theorem sign_eq (s : List UInt8) : ∃ mark, Sign mark (sign s).1 ∧ s = mark ++ (sign s).2 := by
  cases s with
  | nil => exact ⟨[], .blank, rfl⟩
  | cons b s =>
    by_cases hminus : b = 45
    · subst hminus
      exact ⟨[45], .minus, rfl⟩
    · by_cases hplus : b = 43
      · subst hplus
        exact ⟨[43], .plus, rfl⟩
      · simp only [sign, if_neg hminus, if_neg hplus]
        exact ⟨[], .blank, rfl⟩

/-- **The scanner knows the numbers.** -/
theorem denotes_iff {s : List UInt8} {v : Int} : Denotes s v ↔ scan s = some (v, []) := by
  constructor
  · rintro ⟨hblanks, hmark, hne, hdigits⟩
    unfold scan
    simp only [sign_dropWhile hblanks hmark hne hdigits, List.takeWhile_eq_self_iff.mpr hdigits,
      List.dropWhile_eq_nil_iff.mpr hdigits, if_neg hne]
  · intro h
    unfold scan at h
    by_cases hne : (sign (s.dropWhile isSpace)).2.takeWhile isDigit = []
    · simp [hne] at h
    · simp only [if_neg hne, Option.some.injEq, Prod.mk.injEq] at h
      obtain ⟨rfl, hrest⟩ := h
      obtain ⟨mark, hmark, hs⟩ := sign_eq (s.dropWhile isSpace)
      have hall := List.dropWhile_eq_nil_iff.mp hrest
      rw [List.takeWhile_eq_self_iff.mpr hall] at hne ⊢
      have hsplit : s = s.takeWhile isSpace ++ (mark ++ (sign (s.dropWhile isSpace)).2) := by
        rw [← hs, List.takeWhile_append_dropWhile]
      have hblanks : ∀ b ∈ s.takeWhile isSpace, isSpace b = true :=
        fun b hb => List.mem_takeWhile_imp hb
      have hden := Denotes.intro hblanks hmark hne hall
      rwa [← hsplit] at hden

/-- A string is one number at most. -/
theorem Denotes.unique {s : List UInt8} {v v' : Int} (h : Denotes s v) (h' : Denotes s v') :
    v = v' := by
  rw [denotes_iff] at h h'
  rw [h] at h'
  exact (Prod.mk.inj (Option.some.inj h')).1

theorem Denotes.strtol {s : List UInt8} {v : Int} (h : Denotes s v) (w : Nat) :
    strtol w s = (saturate w v, []) := by
  unfold Strtol.strtol
  rw [denotes_iff.mp h]

/-- **Nothing is left** of the empty string and of numbers, and of no other string. -/
theorem strtol_end {w : Nat} {s : List UInt8} :
    (strtol w s).2 = [] ↔ s = [] ∨ ∃ v, Denotes s v := by
  constructor
  · intro h
    unfold strtol at h
    cases hscan : scan s with
    | none =>
      rw [hscan] at h
      exact Or.inl h
    | some p =>
      obtain ⟨v, rest⟩ := p
      rw [hscan] at h
      obtain rfl : rest = [] := h
      exact Or.inr ⟨v, denotes_iff.mpr hscan⟩
  · rintro (rfl | ⟨v, h⟩)
    · rfl
    · rw [h.strtol w]

/-! ## Limits -/

theorem saturate_eq {w : Nat} {v : Int} (hlow : -2 ^ (w - 1) ≤ v) (hhigh : v < 2 ^ (w - 1)) :
    saturate w v = v := by
  unfold saturate
  omega

theorem saturate_high {w : Nat} {v : Int} (h : 2 ^ (w - 1) ≤ v) :
    saturate w v = 2 ^ (w - 1) - 1 := by
  have hpos : (0 : Int) < 2 ^ (w - 1) := Int.pow_pos (by decide)
  unfold saturate
  omega

/-- A negative number stays negative, and no smaller than the least of the type. -/
theorem saturate_neg {w : Nat} {v : Int} (h : v < 0) :
    saturate w v < 0 ∧ -2 ^ (w - 1) ≤ saturate w v := by
  have hpos : (0 : Int) < 2 ^ (w - 1) := Int.pow_pos (by decide)
  unfold saturate
  omega

end Strtol
