import Mathlib.Data.List.Induction

/-!
# Options in a row

A parser takes options one after the other, each changing what was read so far or
ending with an error.  `last kind opts` is the last thing of a kind that was given.

* `parse_invariant`: what every accepted option keeps, of the options up to it and the
  result up to it, holds of all the options and the result.
-/

namespace Options

variable {κ σ ε α : Type}

/-- The last thing of a kind among the options. -/
def last (kind : κ → Option α) (opts : List κ) : Option α := (opts.filterMap kind).getLast?

def parse (step : σ → κ → Except ε σ) (s₀ : σ) (opts : List κ) : Except ε σ := opts.foldlM step s₀

/-- One more option of another kind changes nothing. -/
theorem last_concat_none {kind : κ → Option α} {k : κ} (h : kind k = none) (opts : List κ) :
    last kind (opts ++ [k]) = last kind opts := by
  unfold last
  rw [List.filterMap_append, List.filterMap_cons_none h, List.filterMap_nil, List.append_nil]

/-- One more of the kind is the last. -/
theorem last_concat_some {kind : κ → Option α} {k : κ} {a : α} (h : kind k = some a)
    (opts : List κ) : last kind (opts ++ [k]) = some a := by
  unfold last
  rw [List.filterMap_append, List.filterMap_cons_some h, List.filterMap_nil]
  exact List.getLast?_concat

/-- Options that were accepted, and one more. -/
theorem parse_concat {step : σ → κ → Except ε σ} {s₀ s' : σ} {opts : List κ} {k : κ} :
    parse step s₀ (opts ++ [k]) = .ok s' ↔
      ∃ s, parse step s₀ opts = .ok s ∧ step s k = .ok s' := by
  unfold parse
  rw [List.foldlM_append]
  cases opts.foldlM step s₀ with
  | error e => simp [bind, Except.bind]
  | ok s => cases hk : step s k <;> simp [bind, Except.bind, pure, Except.pure, hk]

/-- **Induction over the options**, from the first to the last. -/
theorem parse_invariant {step : σ → κ → Except ε σ} {s₀ : σ} (I : List κ → σ → Prop)
    (hstart : I [] s₀)
    (hstep : ∀ opts s k s', I opts s → step s k = .ok s' → I (opts ++ [k]) s')
    {opts : List κ} {s : σ} (h : parse step s₀ opts = .ok s) : I opts s := by
  induction opts using List.reverseRecOn generalizing s with
  | nil =>
    obtain rfl : s₀ = s := Except.ok.inj h
    exact hstart
  | append_singleton opts k ih =>
    obtain ⟨s₁, h₁, hk⟩ := parse_concat.mp h
    exact hstep opts s₁ k s (ih h₁) hk

end Options
