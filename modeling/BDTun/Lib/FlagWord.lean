import Mathlib.Data.Nat.Bitwise
import Mathlib.Data.Set.Function

/-!
# Sets of flags in words

A numbering gives each flag a bit of a word.  `flags num w` is the set that a word
denotes under a numbering, `word num fs` a word with the bits of some flags and no
others.  A `Translation` takes words of one numbering to words of another and keeps
the flags of a set.

* `Translation.flags_eq`: the new word denotes the flags of the set that the old one did.
* `Translation.eq_iff`: two translations to one numbering give the same word exactly
  when they were given the same flags.
* `Translation.or`, `Translation.word`: unions of words, and words of given flags.
-/

namespace FlagWord

variable {F : Type}

/-- The flags whose bits are set. -/
def flags (num : F → Nat) (w : Nat) : Set F := {f | w.testBit (num f) = true}

/-- The word with the bits of some flags. -/
def word (num : F → Nat) (fs : List F) : Nat := fs.foldl (fun w f => w ||| 1 <<< num f) 0

/-- The word has the bits of `dst` for the flags of `S` that the word has in `src`, and no others. -/
def Translation (src dst : F → Nat) (S : Set F) (t : Nat → Nat) : Prop :=
  ∀ w i, (t w).testBit i = true ↔ ∃ f ∈ S, dst f = i ∧ f ∈ flags src w

/-! ## Bits -/

theorem mem_flags {num : F → Nat} {w : Nat} {f : F} :
    f ∈ flags num w ↔ w.testBit (num f) = true := Iff.rfl

theorem testBit_shift (k i : Nat) : (1 <<< k).testBit i = true ↔ k = i := by
  rw [Nat.one_shiftLeft, Nat.testBit_two_pow, decide_eq_true_eq]

/-- A union over a list has the bits of all its parts. -/
theorem testBit_foldl_or (g : F → Nat) (fs : List F) (acc i : Nat) :
    (fs.foldl (fun acc f => acc ||| g f) acc).testBit i = true ↔
      acc.testBit i = true ∨ ∃ f ∈ fs, (g f).testBit i = true := by
  induction fs generalizing acc with
  | nil => simp
  | cons f fs ih =>
    rw [List.foldl_cons, ih, Nat.testBit_or, Bool.or_eq_true, or_assoc]
    simp only [List.mem_cons, exists_eq_or_imp]

theorem testBit_word (num : F → Nat) (fs : List F) (i : Nat) :
    (word num fs).testBit i = true ↔ ∃ f ∈ fs, num f = i := by
  unfold word
  rw [testBit_foldl_or]
  simp only [Nat.zero_testBit, Bool.false_eq_true, false_or, testBit_shift]

/-- Words with the same bits, as words are compared here. -/
theorem eq_of_bits {w w' : Nat} (h : ∀ i, w.testBit i = true ↔ w'.testBit i = true) : w = w' :=
  Nat.eq_of_testBit_eq fun i => Bool.eq_iff_iff.mpr (h i)

/-- Distinct bits tell the flags of a word. -/
theorem mem_flags_word {num : F → Nat} {S : Set F} (hnum : Set.InjOn num S) {fs : List F}
    (hfs : ∀ f ∈ fs, f ∈ S) {f : F} (hf : f ∈ S) : f ∈ flags num (word num fs) ↔ f ∈ fs := by
  rw [mem_flags, testBit_word]
  constructor
  · rintro ⟨g, hg, heq⟩
    rwa [← hnum (hfs g hg) hf heq]
  · intro hmem
    exact ⟨f, hmem, rfl⟩

/-! ## Translations -/

variable {src src' dst : F → Nat} {S S' : Set F} {t t' : Nat → Nat}

/-- **What a translated word denotes.** -/
theorem Translation.flags_eq (h : Translation src dst S t) (hdst : Function.Injective dst) (w : Nat) :
    flags dst (t w) = S ∩ flags src w := by
  ext f
  rw [mem_flags, h]
  constructor
  · rintro ⟨g, hg, heq, hw⟩
    rw [← hdst heq]
    exact ⟨hg, hw⟩
  · rintro ⟨hf, hw⟩
    exact ⟨f, hf, rfl, hw⟩

/-- **Words are equal when the flags are.** -/
theorem Translation.eq_iff (h : Translation src dst S t) (h' : Translation src' dst S' t')
    (hdst : Function.Injective dst) (w w' : Nat) :
    t w = t' w' ↔ S ∩ flags src w = S' ∩ flags src' w' := by
  constructor
  · intro heq
    rw [← h.flags_eq hdst, ← h'.flags_eq hdst, heq]
  · intro heq
    refine eq_of_bits fun i => ?_
    rw [h, h']
    have hboth : ∀ f, (f ∈ S ∧ f ∈ flags src w) ↔ (f ∈ S' ∧ f ∈ flags src' w') :=
      Set.ext_iff.mp heq
    constructor
    · rintro ⟨f, hf, hi, hw⟩
      obtain ⟨hf', hw'⟩ := (hboth f).mp ⟨hf, hw⟩
      exact ⟨f, hf', hi, hw'⟩
    · rintro ⟨f, hf', hi, hw'⟩
      obtain ⟨hf, hw⟩ := (hboth f).mpr ⟨hf', hw'⟩
      exact ⟨f, hf, hi, hw⟩

theorem flags_or (num : F → Nat) (w w' : Nat) :
    flags num (w ||| w') = flags num w ∪ flags num w' := by
  ext f
  simp only [Set.mem_union, mem_flags, Nat.testBit_or, Bool.or_eq_true]

/-- **Unions** are translated part by part. -/
theorem Translation.or (h : Translation src dst S t) (w w' : Nat) : t (w ||| w') = t w ||| t w' := by
  refine eq_of_bits fun i => ?_
  rw [Nat.testBit_or, Bool.or_eq_true, h, h, h, flags_or]
  constructor
  · rintro ⟨f, hf, hi, hw | hw⟩
    · exact Or.inl ⟨f, hf, hi, hw⟩
    · exact Or.inr ⟨f, hf, hi, hw⟩
  · rintro (⟨f, hf, hi, hw⟩ | ⟨f, hf, hi, hw⟩)
    · exact ⟨f, hf, hi, Or.inl hw⟩
    · exact ⟨f, hf, hi, Or.inr hw⟩

/-- **Nothing is lost**: the word of some flags becomes the word of these flags. -/
theorem Translation.word (h : Translation src dst S t) (hsrc : Set.InjOn src S) {fs : List F}
    (hfs : ∀ f ∈ fs, f ∈ S) : t (word src fs) = FlagWord.word dst fs := by
  refine eq_of_bits fun i => ?_
  rw [h, testBit_word]
  constructor
  · rintro ⟨f, hf, hi, hw⟩
    exact ⟨f, (mem_flags_word hsrc hfs hf).mp hw, hi⟩
  · rintro ⟨f, hmem, hi⟩
    have hf := hfs f hmem
    exact ⟨f, hf, hi, (mem_flags_word hsrc hfs hf).mpr hmem⟩

end FlagWord
