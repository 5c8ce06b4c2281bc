import Mathlib.Data.List.Basic

/-!
# Strings with terminators, one after the other

`joined z ss` writes the strings `ss` in a row, each followed by `z`; `starts`
says where they begin, `stringAt` reads one back.

* `stringAt_starts`: no string has `z` in it ⇒ each is read where it begins.
* `starts_tail`: and the second one and those after it begin behind a terminator.
-/

namespace Terminated

variable {α : Type} [DecidableEq α]

def joined (z : α) (ss : List (List α)) : List α := ss.flatMap fun s => s ++ [z]

/-- Where the strings begin, if the first begins at `pos`. -/
def starts : Nat → List (List α) → List Nat
  | _, [] => []
  | pos, s :: rest => pos :: starts (pos + s.length + 1) rest

/-- The string that begins at `pos`. -/
def stringAt (z : α) (buf : List α) (pos : Nat) : List α := (buf.drop pos).takeWhile (· ≠ z)

/-- The positions before `stop` that have a terminator and are not the last one. -/
def separators (z : α) (buf : List α) (stop : Nat) (is : List Nat) : List Nat :=
  is.filter fun i => buf[i]? = some z ∧ i + 1 < stop

omit [DecidableEq α] in
@[simp] theorem joined_cons (z : α) (s : List α) (ss : List (List α)) :
    joined z (s :: ss) = s ++ z :: joined z ss := by
  simp [joined]

omit [DecidableEq α] in
@[simp] theorem length_starts (pos : Nat) (ss : List (List α)) :
    (starts pos ss).length = ss.length := by
  induction ss generalizing pos with
  | nil => rfl
  | cons s ss ih => rw [starts, List.length_cons, ih, List.length_cons]

theorem stringAt_append (z : α) {s : List α} (hs : z ∉ s) (pre post : List α) :
    stringAt z (pre ++ (s ++ z :: post)) pre.length = s := by
  rw [stringAt, List.drop_left, List.takeWhile_append_of_pos, List.takeWhile_cons_of_neg,
    List.append_nil]
  · simp
  · intro a ha
    have hne : a ≠ z := fun h => hs (h ▸ ha)
    simpa using hne

theorem stringAt_starts (z : α) {ss : List (List α)} (hz : ∀ s ∈ ss, z ∉ s) (pre post : List α) :
    (starts pre.length ss).map (stringAt z (pre ++ joined z ss ++ post)) = ss := by
  induction ss generalizing pre with
  | nil => rfl
  | cons s ss ih =>
    have hlen : pre.length + s.length + 1 = (pre ++ s ++ [z]).length := by simp [Nat.add_assoc]
    have hbuf : pre ++ joined z (s :: ss) ++ post = pre ++ s ++ [z] ++ joined z ss ++ post := by
      simp
    have hfirst := stringAt_append z (hz s List.mem_cons_self) pre (joined z ss ++ post)
    have hrest := ih (fun t ht => hz t (List.mem_cons_of_mem _ ht)) (pre ++ s ++ [z])
    rw [starts, List.map_cons, hlen, hbuf, hrest]
    congr 1
    simpa using hfirst

theorem separators_append (z : α) (buf : List α) (stop : Nat) (is js : List Nat) :
    separators z buf stop (is ++ js) = separators z buf stop is ++ separators z buf stop js :=
  List.filter_append _ _

/-- Within a string there is no terminator. -/
theorem separators_string (z : α) {s : List α} (hs : z ∉ s) (pre post : List α) (stop : Nat) :
    separators z (pre ++ (s ++ post)) stop (List.range' pre.length s.length) = [] := by
  rw [separators, List.filter_eq_nil_iff]
  intro i hi
  obtain ⟨hle, hlt⟩ := List.mem_range'_1.mp hi
  rw [List.getElem?_append_right hle, List.getElem?_append_left (by omega)]
  simp only [decide_eq_true_eq, not_and]
  intro hz
  exact absurd (List.mem_of_getElem? hz) hs

/-- **Boundaries.**  The inner terminators are each just before a string. -/
theorem starts_tail (z : α) {ss : List (List α)} (hz : ∀ s ∈ ss, z ∉ s) (pre post : List α) :
    (separators z (pre ++ joined z ss ++ post) (pre.length + (joined z ss).length)
      (List.range' pre.length (joined z ss).length)).map (· + 1) = (starts pre.length ss).tail := by
  induction ss generalizing pre with
  | nil => rfl
  | cons s ss ih =>
    have hlen : (pre ++ s ++ [z]).length = pre.length + s.length + 1 := by simp [Nat.add_assoc]
    have hbuf : pre ++ joined z (s :: ss) ++ post = pre ++ s ++ [z] ++ joined z ss ++ post := by
      simp
    have hstop : pre.length + (joined z (s :: ss)).length =
        (pre ++ s ++ [z]).length + (joined z ss).length := by
      simp
      omega
    have hrange : List.range' pre.length (joined z (s :: ss)).length =
        List.range' pre.length s.length ++ (pre.length + s.length) ::
          List.range' (pre ++ s ++ [z]).length (joined z ss).length := by
      rw [joined_cons, List.length_append, List.length_cons, ← List.range'_append_1,
        List.range'_succ, hlen]
    have hrest := ih (fun t ht => hz t (List.mem_cons_of_mem _ ht)) (pre ++ s ++ [z])
    rw [hbuf, hstop, hrange]
    generalize hb : pre ++ s ++ [z] ++ joined z ss ++ post = buf at hrest ⊢
    generalize hs : (pre ++ s ++ [z]).length + (joined z ss).length = stop at hrest ⊢
    have hnone : separators z buf stop (List.range' pre.length s.length) = [] := by
      have := separators_string z (hz s List.mem_cons_self) pre (z :: (joined z ss ++ post)) stop
      rw [← this, ← hb]
      simp
    have hend : buf[pre.length + s.length]? = some z := by
      rw [← hb]
      simp
    rw [separators_append, hnone, List.nil_append, starts, List.tail_cons, ← hlen]
    -- the terminator of `s` counts if something follows it
    cases ss with
    | nil =>
      have hlast : ¬ pre.length + s.length + 1 < stop := by
        rw [← hs, hlen]
        simp [joined]
      simp [separators, hlast, joined, starts]
    | cons t ts =>
      have hmore : pre.length + s.length + 1 < stop := by
        rw [← hs, hlen, joined_cons, List.length_append, List.length_cons]
        omega
      have hfirst : separators z buf stop ((pre.length + s.length) ::
          List.range' (pre ++ s ++ [z]).length (joined z (t :: ts)).length) =
          (pre.length + s.length) :: separators z buf stop
            (List.range' (pre ++ s ++ [z]).length (joined z (t :: ts)).length) := by
        rw [separators, List.filter_cons_of_pos (by simp [hend, hmore])]
        rfl
      rw [hfirst, List.map_cons, hrest, ← hlen]
      rfl

end Terminated
