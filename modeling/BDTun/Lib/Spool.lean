import BDTun.Lib.Machine
import Mathlib.Data.List.Perm.Basic
import Mathlib.Data.List.Nodup

/-!
# A spool: work handed out in order, given back or finished

Work is `waiting`, then `held` by the workers, then `done`; what is held can be
given back, to the end of what waits.

* `Run.conserved`: in every run each piece of work is in exactly one place, once.
* `Path.taken_order`: as long as nothing is given back, the work is handed out
  in the order it came in.
-/

structure Spool (β : Type) where
  waiting : List β
  held : List β
  done : List β

namespace Spool

open Machine

variable {β : Type} [DecidableEq β]

inductive Act (β : Type)
  | put (b : β)
  /-- refused on arrival: done at once -/
  | discard (b : β)
  | take
  | finish (b : β)
  | giveBack
deriving DecidableEq

def all (s : Spool β) : List β := s.waiting ++ (s.held ++ s.done)

def empty : Spool β := ⟨[], [], []⟩

/-- The state after an action, and the work handed out. -/
def step (s : Spool β) : Act β → Spool β × Option β
  | .put b => ({ s with waiting := s.waiting ++ [b] }, none)
  | .discard b => ({ s with done := s.done ++ [b] }, none)
  | .take =>
    match s.waiting with
    | [] => (s, none)
    | b :: rest => ({ s with waiting := rest, held := s.held ++ [b] }, some b)
  | .finish b => ({ s with held := s.held.erase b, done := s.done ++ [b] }, none)
  | .giveBack => ({ s with waiting := s.waiting ++ s.held, held := [] }, none)

/-- New work is new, and only held work is finished. -/
def Enabled (s : Spool β) : Act β → Prop
  | .put b => b ∉ s.all
  | .discard b => b ∉ s.all
  | .take => True
  | .finish b => b ∈ s.held
  | .giveBack => True

def machine (β : Type) [DecidableEq β] : Machine (Spool β) (Act β) (Option β) where
  enabled := Enabled
  next := step

abbrev anyone : Policy (Act β) (Option β) := fun _ _ => True

/-- The work that came in, refused or not. -/
def given (tr : List (Act β × Option β)) : List β :=
  tr.filterMap fun e => match e.1 with
    | .put b => some b
    | .discard b => some b
    | _ => none

/-- The work that was accepted. -/
def puts (tr : List (Act β × Option β)) : List β :=
  tr.filterMap fun e => match e.1 with
    | .put b => some b
    | _ => none

/-- The work that was handed out. -/
def taken (tr : List (Act β × Option β)) : List β := tr.filterMap Prod.snd

omit [DecidableEq β] in
@[simp] theorem given_append (tr more : List (Act β × Option β)) :
    given (tr ++ more) = given tr ++ given more := by simp [given]

omit [DecidableEq β] in
@[simp] theorem puts_append (tr more : List (Act β × Option β)) :
    puts (tr ++ more) = puts tr ++ puts more := by simp [puts]

omit [DecidableEq β] in
@[simp] theorem taken_append (tr more : List (Act β × Option β)) :
    taken (tr ++ more) = taken tr ++ taken more := by simp [taken]

/-- One action moves work between the places; only new work is added. -/
theorem all_step (s : Spool β) (a : Act β) (h : Enabled s a) :
    (step s a).1.all.Perm (s.all ++ given [(a, (step s a).2)]) := by
  cases a with
  | put b =>
    have hcomm : ([b] ++ (s.held ++ s.done)).Perm ((s.held ++ s.done) ++ [b]) :=
      List.perm_append_comm
    simpa [step, all, given, List.append_assoc] using hcomm.append_left s.waiting
  | discard b => simp [step, all, given]
  | take =>
    cases hw : s.waiting with
    | nil => simp [step, all, given, hw]
    | cons b rest =>
      simp only [step, all, given, hw]
      have hmiddle : ((rest ++ s.held) ++ b :: s.done).Perm (b :: ((rest ++ s.held) ++ s.done)) :=
        List.perm_middle
      simpa [List.append_assoc] using hmiddle
  | finish b =>
    have herase : (s.held.erase b ++ (s.done ++ [b])).Perm (s.held ++ s.done) := by
      have hback : (b :: (s.held.erase b ++ s.done)).Perm (s.held ++ s.done) :=
        (List.perm_cons_erase h).symm.append_right s.done
      have hlast : (s.held.erase b ++ s.done ++ [b]).Perm (b :: (s.held.erase b ++ s.done)) :=
        List.perm_append_comm
      rw [List.append_assoc] at hlast
      exact hlast.trans hback
    simpa [step, all, given] using herase.append_left s.waiting
  | giveBack => simp [step, all, given]

/-- **Nothing is lost or doubled.**  What waits, is held or is done is what came in, each once. -/
theorem Run.conserved {tr : List (Act β × Option β)} {s : Spool β}
    (h : Run (machine β) anyone empty tr s) : s.all.Perm (given tr) ∧ s.all.Nodup := by
  refine h.invariant (fun tr s => s.all.Perm (given tr) ∧ s.all.Nodup) ?_ ?_
  · simp [empty, all, given]
  · rintro tr s a ⟨hperm, hnodup⟩ - he
    change Enabled s a at he
    have hstep := all_step s a he
    rw [given_append]
    refine ⟨hstep.trans (hperm.append_right _), hstep.nodup_iff.mpr ?_⟩
    rw [List.nodup_append']
    refine ⟨hnodup, ?_⟩
    cases a with
    | put b => exact ⟨by simp [given], by simpa [given] using (show b ∉ s.all from he)⟩
    | discard b => exact ⟨by simp [given], by simpa [given] using (show b ∉ s.all from he)⟩
    | take => simp [given]
    | finish b => simp [given]
    | giveBack => simp [given]

/-- Without `giveBack`, one action keeps the order of what is handed out. -/
theorem taken_step (s : Spool β) (a : Act β) (ha : a ≠ .giveBack) :
    taken [(a, (step s a).2)] ++ (step s a).1.waiting = s.waiting ++ puts [(a, (step s a).2)] := by
  cases a with
  | put b => simp [step, taken, puts]
  | discard b => simp [step, taken, puts]
  | take => cases hw : s.waiting <;> simp [step, taken, puts, hw]
  | finish b => simp [step, taken, puts]
  | giveBack => exact absurd rfl ha

/-- **Order.**  Until something is given back, what was handed out followed by what still waits is
what waited at the start followed by what came in. -/
theorem Path.taken_order {tr₀ tr : List (Act β × Option β)} {s₀ s : Spool β}
    (h : Path (machine β) anyone tr₀ s₀ tr s) (hgb : ∀ e ∈ tr, e.1 ≠ Act.giveBack) :
    taken tr ++ s.waiting = s₀.waiting ++ puts tr := by
  induction h with
  | refl => simp [taken, puts]
  | @step tr s a _ _ _ ih =>
    have hih := ih fun e he => hgb e (by simp [he])
    have hstep := taken_step s a (hgb (a, (step s a).2) (by simp [machine]))
    rw [taken_append, puts_append, List.append_assoc]
    show _ ++ (taken [(a, (step s a).2)] ++ (step s a).1.waiting) = _
    rw [hstep, ← List.append_assoc, hih, List.append_assoc]
    rfl

end Spool
