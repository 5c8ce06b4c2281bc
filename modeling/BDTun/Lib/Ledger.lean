import Mathlib.Data.Multiset.AddSub

/-!
# Ledgers: what is held, and what was released without being held

A ledger is a bag of resources.  Releasing one that is held takes it off once;
releasing one that is not is written down, so that a double release shows.

* `release_take`, `release_take_of_ne`: unwinding in the reverse order of taking.
* `releaseAll_of_held`: releasing a list that is held leaves the rest.
-/

structure ResourceLedger (ρ : Type) where
  held : Multiset ρ
  /-- what was released though it was not held -/
  misfreed : List ρ

namespace ResourceLedger

variable {ρ : Type} [DecidableEq ρ]

def empty : ResourceLedger ρ := ⟨0, []⟩

def take (l : ResourceLedger ρ) (r : ρ) : ResourceLedger ρ := { l with held := r ::ₘ l.held }

def release (l : ResourceLedger ρ) (r : ρ) : ResourceLedger ρ :=
  if r ∈ l.held then { l with held := l.held.erase r }
  else { l with misfreed := r :: l.misfreed }

def releaseAll (l : ResourceLedger ρ) (rs : List ρ) : ResourceLedger ρ := rs.foldl release l

omit [DecidableEq ρ] in
@[simp] theorem held_take (l : ResourceLedger ρ) (r : ρ) : (l.take r).held = r ::ₘ l.held := rfl

theorem release_of_held {l : ResourceLedger ρ} {r : ρ} {m : Multiset ρ} (h : l.held = r ::ₘ m) :
    l.release r = ⟨m, l.misfreed⟩ := by
  rw [release, if_pos (h ▸ Multiset.mem_cons_self r m), h, Multiset.erase_cons_head]

@[simp] theorem release_take (l : ResourceLedger ρ) (r : ρ) : (l.take r).release r = l :=
  release_of_held (held_take l r)

/-- Releasing one resource and taking another can be done in either order. -/
theorem release_take_of_ne (l : ResourceLedger ρ) {r r' : ρ} (h : r ≠ r') :
    (l.take r').release r = (l.release r).take r' := by
  by_cases hr : r ∈ l.held
  · have hr' : r ∈ (l.take r').held := Multiset.mem_cons_of_mem hr
    rw [release, release, if_pos hr, if_pos hr', held_take, Multiset.erase_cons_tail _ h.symm]
    rfl
  · have hr' : r ∉ (l.take r').held := by
      rw [held_take, Multiset.mem_cons]
      exact not_or.mpr ⟨h, hr⟩
    rw [release, release, if_neg hr, if_neg hr']
    rfl

/-- **Release of what is held.**  The rest stays, and nothing was released that was not held. -/
theorem releaseAll_of_held {l : ResourceLedger ρ} {rs : List ρ} {m : Multiset ρ}
    (h : l.held = (rs : Multiset ρ) + m) : l.releaseAll rs = ⟨m, l.misfreed⟩ := by
  induction rs generalizing l with
  | nil =>
    rw [Multiset.coe_nil, Multiset.zero_add] at h
    rw [← h]
    rfl
  | cons r rs ih =>
    have hcons : l.held = r ::ₘ ((rs : Multiset ρ) + m) := by
      rw [h, ← Multiset.cons_coe, Multiset.cons_add]
    show (l.release r).releaseAll rs = _
    rw [release_of_held hcons]
    exact ih rfl

end ResourceLedger
