import Mathlib.Data.List.TakeWhile

/-!
# The string functions of C, on objects with bounds

An object is the list of its cells and `z` is the terminator.  Each function is
`none` where the C function would touch a cell outside its objects, and
otherwise what it returns or what it leaves in its destination.

* `strcmp_string`, `strcpy_string`, `strncpy_string`, `strcat_string`: what they
  do with strings that end, where the destination is long enough.
* `strcmp_endless`, `strcpy_endless`, `strcat_endless`, `strncpy_long`: with rows of
  cells without a terminator.
-/

namespace CString

variable {α : Type} [DecidableEq α] (z : α)

/-- The string at the start of an object. -/
def string (obj : List α) : List α := obj.takeWhile (· ≠ z)

/-- `strcmp(a, b) == 0` -/
def strcmp : List α → List α → Option Bool
  | a :: as, b :: bs => if a ≠ b then some false else if a = z then some true else strcmp as bs
  | _, _ => none

def strcpy : (dst src : List α) → Option (List α)
  | _ :: dst, b :: src => if b = z then some (z :: dst) else (strcpy dst src).map (b :: ·)
  | _, _ => none

/-- The rest is filled with terminators. -/
def strncpy : (dst src : List α) → Nat → Option (List α)
  | dst, _, 0 => some dst
  | _ :: dst, b :: src, n + 1 =>
    (strncpy dst (if b = z then b :: src else src) n).map (b :: ·)
  | _, _, _ + 1 => none

def strcat : (dst src : List α) → Option (List α)
  | b :: dst, src => if b = z then strcpy z (b :: dst) src else (strcat dst src).map (b :: ·)
  | [], _ => none

/-- An object has a string that ends, or no terminator at all. -/
theorem split_or_endless (obj : List α) :
    (∃ s rest, obj = s ++ z :: rest ∧ z ∉ s) ∨ z ∉ obj := by
  by_cases h : z ∈ obj
  · left
    obtain ⟨s, rest, hobj, hs⟩ := List.eq_append_cons_of_mem h
    exact ⟨s, rest, hobj, hs⟩
  · exact Or.inr h

variable {z}

theorem string_append {s : List α} (hs : z ∉ s) (rest : List α) : string z (s ++ z :: rest) = s := by
  unfold string
  rw [List.takeWhile_append_of_pos, List.takeWhile_cons_of_neg, List.append_nil]
  · simp
  · intro a ha
    have hne : a ≠ z := fun h => hs (h ▸ ha)
    simpa using hne

theorem notMem_string (obj : List α) : z ∉ string z obj := by
  intro h
  have hne := List.mem_takeWhile_imp (p := fun a => decide (a ≠ z)) h
  simp at hne

theorem strcmp_string {s t : List α} (hs : z ∉ s) (ht : z ∉ t) (ms mt : List α) :
    strcmp z (s ++ z :: ms) (t ++ z :: mt) = some (decide (s = t)) := by
  induction s generalizing t with
  | nil =>
    cases t with
    | nil => simp [strcmp]
    | cons b t =>
      obtain ⟨hb, -⟩ := List.ne_and_not_mem_of_not_mem_cons ht
      simp [strcmp, hb]
  | cons a s ih =>
    obtain ⟨ha, hs'⟩ := List.ne_and_not_mem_of_not_mem_cons hs
    cases t with
    | nil => simp [strcmp, ha.symm]
    | cons b t =>
      obtain ⟨-, ht'⟩ := List.ne_and_not_mem_of_not_mem_cons ht
      by_cases hab : a = b
      · subst hab
        simpa [strcmp, ha.symm] using ih hs' ht'
      · simp [strcmp, hab]

/-- A string that ends is told from a longer row of cells without a terminator, inside that row. -/
theorem strcmp_endless {s obj : List α} (hs : z ∉ s) (hobj : z ∉ obj) (h : s.length < obj.length)
    (ms : List α) : strcmp z (s ++ z :: ms) obj = some false := by
  induction s generalizing obj with
  | nil =>
    cases obj with
    | nil => simp at h
    | cons b obj =>
      obtain ⟨hb, -⟩ := List.ne_and_not_mem_of_not_mem_cons hobj
      simp [strcmp, hb]
  | cons a s ih =>
    obtain ⟨ha, hs'⟩ := List.ne_and_not_mem_of_not_mem_cons hs
    cases obj with
    | nil => simp at h
    | cons b obj =>
      obtain ⟨-, hobj'⟩ := List.ne_and_not_mem_of_not_mem_cons hobj
      by_cases hab : a = b
      · subst hab
        simpa [strcmp, ha.symm] using ih hs' hobj' (by simpa using h)
      · simp [strcmp, hab]

theorem strcpy_string {s : List α} (hs : z ∉ s) (rest dst : List α)
    (h : s.length < dst.length) :
    strcpy z dst (s ++ z :: rest) = some (s ++ z :: dst.drop (s.length + 1)) := by
  induction s generalizing dst with
  | nil =>
    cases dst with
    | nil => simp at h
    | cons d dst => simp [strcpy]
  | cons a s ih =>
    obtain ⟨ha, hs'⟩ := List.ne_and_not_mem_of_not_mem_cons hs
    cases dst with
    | nil => simp at h
    | cons d dst =>
      have hrest := ih hs' dst (by simpa using h)
      simp [strcpy, ha.symm, hrest]

/-- A copy of a row without a terminator runs out of it. -/
theorem strcpy_endless {src : List α} (hsrc : z ∉ src) (dst : List α) : strcpy z dst src = none := by
  induction src generalizing dst with
  | nil => cases dst <;> rfl
  | cons b src ih =>
    obtain ⟨hb, hsrc'⟩ := List.ne_and_not_mem_of_not_mem_cons hsrc
    cases dst with
    | nil => rfl
    | cons d dst => simp [strcpy, hb.symm, ih hsrc' dst]

/-- At the end of the string: terminators only. -/
theorem strncpy_fill (rest dst : List α) {n : Nat} (h : n ≤ dst.length) :
    strncpy z dst (z :: rest) n = some (List.replicate n z ++ dst.drop n) := by
  induction n generalizing dst with
  | zero => cases dst <;> simp [strncpy]
  | succ n ih =>
    cases dst with
    | nil => simp at h
    | cons d dst =>
      have hrest := ih dst (by simpa using h)
      simp [strncpy, hrest, List.replicate_succ]

theorem strncpy_string {s : List α} (hs : z ∉ s) (rest dst : List α) {n : Nat}
    (hn : s.length ≤ n) (h : n ≤ dst.length) :
    strncpy z dst (s ++ z :: rest) n =
      some (s ++ List.replicate (n - s.length) z ++ dst.drop n) := by
  induction s generalizing dst n with
  | nil => simpa using strncpy_fill rest dst h
  | cons a s ih =>
    obtain ⟨ha, hs'⟩ := List.ne_and_not_mem_of_not_mem_cons hs
    cases n with
    | zero => simp at hn
    | succ n =>
      cases dst with
      | nil => simp at h
      | cons d dst =>
        have hrest := ih hs' dst (n := n) (by simpa using hn) (by simpa using h)
        simp [strncpy, ha.symm, hrest]

/-- Of a string that is too long, and of a row without a terminator, the first `n` cells. -/
theorem strncpy_long {s : List α} (hs : z ∉ s) (rest dst : List α) {n : Nat} (hn : n ≤ s.length)
    (h : n ≤ dst.length) : strncpy z dst (s ++ rest) n = some (s.take n ++ dst.drop n) := by
  induction n generalizing s dst with
  | zero => cases dst <;> simp [strncpy]
  | succ n ih =>
    cases s with
    | nil => simp at hn
    | cons b s =>
      obtain ⟨hb, hs'⟩ := List.ne_and_not_mem_of_not_mem_cons hs
      cases dst with
      | nil => simp at h
      | cons d dst =>
        have hrest := ih hs' dst (by simpa using hn) (by simpa using h)
        simp [strncpy, hb.symm, hrest]

theorem strcat_string {d s : List α} (hd : z ∉ d) (hs : z ∉ s) (rest more : List α)
    (h : s.length ≤ more.length) :
    strcat z (d ++ z :: more) (s ++ z :: rest) = some (d ++ (s ++ z :: more.drop s.length)) := by
  induction d with
  | nil =>
    have hcopy := strcpy_string hs rest (z :: more) (by simpa using Nat.lt_succ_of_le h)
    simpa [strcat] using hcopy
  | cons b d ih =>
    obtain ⟨hb, hd'⟩ := List.ne_and_not_mem_of_not_mem_cons hd
    have hrest := ih hd'
    simp [strcat, hb.symm, hrest]

/-- Where there is no string to extend, the search for its end runs out. -/
theorem strcat_endless {dst : List α} (hdst : z ∉ dst) (src : List α) : strcat z dst src = none := by
  induction dst with
  | nil => rfl
  | cons b dst ih =>
    obtain ⟨hb, hdst'⟩ := List.ne_and_not_mem_of_not_mem_cons hdst
    simp [strcat, hb.symm, ih hdst']

end CString
