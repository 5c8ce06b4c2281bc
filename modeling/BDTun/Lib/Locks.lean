import Mathlib.Data.Finset.Insert
import Mathlib.Order.WellFounded
import Mathlib.Algebra.Order.BigOperators.Group.Finset
import BDTun.Lib.Machine

/-!
# Threads that take locks

Code is a map from places to instructions: take a lock, give one back, do one
step on what the threads share, rest until the outside sends the thread on.
`held` says for each place which locks the thread has there.

* `Disciplined`: a check of the code place by place: locks are taken in
  increasing order, given back when held, and none is held at rest.
* `run_owned`: in every run of any number of threads the owners of the locks are
  the threads whose places say so; `Owned.exclusive`: a lock has one owner.
* `Owned.progress`: no deadlock: while a thread is under way, one can step.
* `calls_end`: every schedule without new calls is finite, and can be continued
  until all threads are at rest.
-/

open Machine

namespace Locks

/-- What a thread does next. -/
inductive Instr (L σ ε Pc : Type)
  | lock (l : L) (next : Pc)
  | unlock (l : L) (next : Pc)
  /-- a step on the shared state, with what it tells -/
  | act (f : σ → σ × Pc × Option ε)
  /-- the outside sends the thread on, to one of these places -/
  | rest (next : Pc → Bool)
  /-- the thread is gone, with what it holds -/
  | crash

structure Program (L σ ε Pc : Type) where
  instr : Pc → Instr L σ ε Pc
  held : Pc → Finset L

variable {L σ ε Pc T : Type} [DecidableEq L] [DecidableEq T]

/-- What the code has to obey, one instruction at a time. -/
structure Program.Disciplined [Preorder L] (p : Program L σ ε Pc) : Prop where
  lock : ∀ pc l next, p.instr pc = .lock l next →
    (∀ k ∈ p.held pc, k < l) ∧ p.held next = insert l (p.held pc)
  unlock : ∀ pc l next, p.instr pc = .unlock l next →
    l ∈ p.held pc ∧ p.held next = (p.held pc).erase l
  act : ∀ pc f, p.instr pc = .act f → ∀ s, p.held (f s).2.1 = p.held pc
  rest : ∀ pc next, p.instr pc = .rest next → p.held pc = ∅ ∧ ∀ pc', next pc' → p.held pc' = ∅

/-- The thread is at rest. -/
def Program.Resting (p : Program L σ ε Pc) (pc : Pc) : Prop := ∃ next, p.instr pc = .rest next

/-- What the threads share, who has which lock, and where each thread is. -/
structure State (T L σ Pc : Type) where
  shared : σ
  owner : L → Option T
  pc : T → Pc

inductive Act (T Pc : Type)
  /-- the outside sends a resting thread on -/
  | resume (t : T) (pc : Pc)
  | step (t : T)
deriving DecidableEq

def Act.thread : Act T Pc → T
  | .resume t _ => t
  | .step t => t

def State.goto (s : State T L σ Pc) (t : T) (pc : Pc) : State T L σ Pc :=
  { s with pc := Function.update s.pc t pc }

def State.next (p : Program L σ ε Pc) (s : State T L σ Pc) : Act T Pc → State T L σ Pc × Option ε
  | .resume t pc => (s.goto t pc, none)
  | .step t =>
    match p.instr (s.pc t) with
    | .lock l next => ({ s.goto t next with owner := Function.update s.owner l (some t) }, none)
    | .unlock l next => ({ s.goto t next with owner := Function.update s.owner l none }, none)
    | .act f => ({ s.goto t (f s.shared).2.1 with shared := (f s.shared).1 }, (f s.shared).2.2)
    | .rest _ => (s, none)
    | .crash => (s, none)

/-- The outside can send a thread on to `pc`. -/
def Instr.CanResume (pc : Pc) : Instr L σ ε Pc → Prop
  | .rest next => next pc = true
  | _ => False

def Instr.CanStep (owner : L → Option T) : Instr L σ ε Pc → Prop
  | .lock l _ => owner l = none
  | .unlock _ _ => True
  | .act _ => True
  | .rest _ => False
  | .crash => False

instance (pc : Pc) : (i : Instr L σ ε Pc) → Decidable (i.CanResume pc)
  | .lock _ _ => isFalse id
  | .unlock _ _ => isFalse id
  | .act _ => isFalse id
  | .rest next => inferInstanceAs (Decidable (next pc = true))
  | .crash => isFalse id

instance (owner : L → Option T) : (i : Instr L σ ε Pc) → Decidable (i.CanStep owner)
  | .lock l _ => inferInstanceAs (Decidable (owner l = none))
  | .unlock _ _ => isTrue trivial
  | .act _ => isTrue trivial
  | .rest _ => isFalse id
  | .crash => isFalse id

def State.Enabled (p : Program L σ ε Pc) (s : State T L σ Pc) : Act T Pc → Prop
  | .resume t pc => (p.instr (s.pc t)).CanResume pc
  | .step t => (p.instr (s.pc t)).CanStep s.owner

instance (p : Program L σ ε Pc) (s : State T L σ Pc) : (a : Act T Pc) → Decidable (s.Enabled p a)
  | .resume _ _ => inferInstanceAs (Decidable (Instr.CanResume _ _))
  | .step _ => inferInstanceAs (Decidable (Instr.CanStep _ _))

/-- The threads of a program, one step of one thread at a time. -/
def running (T : Type) [DecidableEq T] (p : Program L σ ε Pc) :
    Machine (State T L σ Pc) (Act T Pc) (Option ε) where
  enabled := State.Enabled p
  next := State.next p

/-- Nobody has a lock, all threads are at one place. -/
def State.start (shared : σ) (pc : Pc) : State T L σ Pc := ⟨shared, fun _ => none, fun _ => pc⟩

variable {p : Program L σ ε Pc} {s : State T L σ Pc} {t u : T}

omit [DecidableEq L] in
@[simp] theorem goto_self (s : State T L σ Pc) (t : T) (pc : Pc) : (s.goto t pc).pc t = pc :=
  Function.update_self ..

omit [DecidableEq L] in
theorem goto_other (s : State T L σ Pc) (pc : Pc) (h : u ≠ t) : (s.goto t pc).pc u = s.pc u :=
  Function.update_of_ne h ..

/-! ## All that an action can be -/

/-- What an action that is possible does, by the instruction it executes. -/
inductive Moves (p : Program L σ ε Pc) (s : State T L σ Pc) :
    Act T Pc → State T L σ Pc × Option ε → Prop
  | resumed (t : T) (pc : Pc) (next : Pc → Bool) (hi : p.instr (s.pc t) = .rest next)
      (hn : next pc = true) : Moves p s (.resume t pc) (s.goto t pc, none)
  | locked (t : T) (l : L) (next : Pc) (hi : p.instr (s.pc t) = .lock l next)
      (hfree : s.owner l = none) :
      Moves p s (.step t) ({ s.goto t next with owner := Function.update s.owner l (some t) }, none)
  | unlocked (t : T) (l : L) (next : Pc) (hi : p.instr (s.pc t) = .unlock l next) :
      Moves p s (.step t) ({ s.goto t next with owner := Function.update s.owner l none }, none)
  | acted (t : T) (f : σ → σ × Pc × Option ε) (hi : p.instr (s.pc t) = .act f) :
      Moves p s (.step t)
        ({ s.goto t (f s.shared).2.1 with shared := (f s.shared).1 }, (f s.shared).2.2)

theorem moves_of_enabled {a : Act T Pc} (he : (running T p).enabled s a) :
    Moves p s a ((running T p).next s a) := by
  cases a with
  | resume t pc =>
    simp only [running, State.Enabled] at he ⊢
    cases hi : p.instr (s.pc t) with
    | rest next =>
      rw [hi] at he
      exact .resumed t pc next hi he
    | lock _ _ => rw [hi] at he; exact he.elim
    | unlock _ _ => rw [hi] at he; exact he.elim
    | act _ => rw [hi] at he; exact he.elim
    | crash => rw [hi] at he; exact he.elim
  | step t =>
    simp only [running, State.Enabled, State.next] at he ⊢
    cases hi : p.instr (s.pc t) with
    | lock l next =>
      rw [hi] at he
      exact .locked t l next hi he
    | unlock l next => exact .unlocked t l next hi
    | act f => exact .acted t f hi
    | rest _ => rw [hi] at he; exact he.elim
    | crash => rw [hi] at he; exact he.elim

omit [DecidableEq L] in
/-- A thread under way is not at rest. -/
theorem not_resting {pc : Pc} {i : Instr L σ ε Pc} (hi : p.instr pc = i) (h : ∀ next, i ≠ .rest next) :
    ¬ p.Resting pc := by
  rintro ⟨next, hrest⟩
  exact h next (hi.symm.trans hrest)

/-- An action moves its own thread only. -/
theorem next_other {a : Act T Pc} (he : (running T p).enabled s a) (hu : u ≠ a.thread) :
    ((running T p).next s a).1.pc u = s.pc u := by
  have hmoves := moves_of_enabled he
  generalize (running T p).next s a = res at hmoves
  cases hmoves with
  | resumed t pc next hi hn => exact goto_other s pc hu
  | locked t l next hi hfree => exact goto_other s next hu
  | unlocked t l next hi => exact goto_other s next hu
  | acted t f hi => exact goto_other s _ hu

/-- Only a thread under way steps. -/
theorem step_under_way (he : (running T p).enabled s (.step t)) : ¬ p.Resting (s.pc t) := by
  have hmoves := moves_of_enabled he
  generalize (running T p).next s (.step t) = res at hmoves
  cases hmoves with
  | locked t l next hi hfree => exact not_resting hi (by simp)
  | unlocked t l next hi => exact not_resting hi (by simp)
  | acted t f hi => exact not_resting hi (by simp)

/-! ## Owners -/

/-- The locks are with the threads whose places say that they have them. -/
def Owned (p : Program L σ ε Pc) (s : State T L σ Pc) : Prop :=
  ∀ l t, s.owner l = some t ↔ l ∈ p.held (s.pc t)

omit [DecidableEq L] [DecidableEq T] in
/-- **Mutual exclusion.** -/
theorem Owned.exclusive (h : Owned p s) {l : L} (ht : l ∈ p.held (s.pc t))
    (hu : l ∈ p.held (s.pc u)) : t = u :=
  Option.some.inj (((h l t).mpr ht).symm.trans ((h l u).mpr hu))

omit [DecidableEq L] in
/-- A thread that goes on with the locks it has. -/
theorem Owned.goto (h : Owned p s) {pc : Pc} (hsame : p.held pc = p.held (s.pc t)) (shared : σ) :
    Owned p { s.goto t pc with shared := shared } := by
  intro l u
  show s.owner l = some u ↔ l ∈ p.held ((s.goto t pc).pc u)
  by_cases hu : u = t
  · subst hu
    rw [goto_self, hsame]
    exact h l u
  · rw [goto_other s pc hu]
    exact h l u

variable [Preorder L]

theorem Owned.next (hp : p.Disciplined) (h : Owned p s) {a : Act T Pc}
    (he : (running T p).enabled s a) : Owned p ((running T p).next s a).1 := by
  have hmoves := moves_of_enabled he
  generalize (running T p).next s a = res at hmoves
  cases hmoves with
  | resumed t pc next hi hn =>
    obtain ⟨hnone, hall⟩ := hp.rest _ next hi
    exact h.goto ((hall pc hn).trans hnone.symm) s.shared
  | locked t l next hi hfree =>
    obtain ⟨-, hheld⟩ := hp.lock _ l next hi
    intro k u
    show Function.update s.owner l (some t) k = some u ↔ k ∈ p.held ((s.goto t next).pc u)
    by_cases hu : u = t
    · subst hu
      rw [goto_self, hheld, Finset.mem_insert]
      by_cases hk : k = l
      · subst hk
        simp
      · rw [Function.update_of_ne hk, h k u]
        simp [hk]
    · rw [goto_other s next hu, ← h k u]
      by_cases hk : k = l
      · subst hk
        rw [Function.update_self, hfree]
        simp [Ne.symm hu]
      · rw [Function.update_of_ne hk]
  | unlocked t l next hi =>
    obtain ⟨hmem, hheld⟩ := hp.unlock _ l next hi
    intro k u
    show Function.update s.owner l none k = some u ↔ k ∈ p.held ((s.goto t next).pc u)
    by_cases hu : u = t
    · subst hu
      rw [goto_self, hheld, Finset.mem_erase]
      by_cases hk : k = l
      · subst hk
        simp
      · rw [Function.update_of_ne hk, h k u]
        simp [hk]
    · rw [goto_other s next hu, ← h k u]
      by_cases hk : k = l
      · subst hk
        rw [Function.update_self, (h k t).mpr hmem]
        simp [Ne.symm hu]
      · rw [Function.update_of_ne hk]
  | acted t f hi => exact h.goto (hp.act _ f hi s.shared) _

/-- **In every run**, whatever the outside does, the locks are where the code says. -/
theorem run_owned (hp : p.Disciplined) {P : Policy (Act T Pc) (Option ε)} {shared : σ} {pc : Pc}
    (hpc : p.held pc = ∅) {tr : List (Act T Pc × Option ε)}
    (hrun : Run (running T p) P (.start shared pc) tr s) : Owned p s := by
  refine hrun.invariant (fun _ s => Owned p s) ?_ ?_
  · intro l t
    show none = some t ↔ l ∈ p.held pc
    rw [hpc]
    simp
  · intro tr s a h _ he
    exact h.next hp he

/-! ## Progress -/

/-- **No deadlock.**  While a thread is under way, and none has crashed, one of those under way can
step: follow the owners of the locks that are waited for, which are ever greater. -/
theorem Owned.progress [WellFoundedGT L] (hp : p.Disciplined) (h : Owned p s)
    (hcrash : ∀ u, p.instr (s.pc u) ≠ .crash) (ht : ¬ p.Resting (s.pc t)) :
    ∃ u, ¬ p.Resting (s.pc u) ∧ (running T p).enabled s (.step u) := by
  have hchain : ∀ l u next, p.instr (s.pc u) = .lock l next →
      ∃ v, ¬ p.Resting (s.pc v) ∧ (running T p).enabled s (.step v) := by
    intro l
    induction l using WellFoundedGT.induction with
    | _ l ih =>
      intro u next hi
      cases hown : s.owner l with
      | none =>
        refine ⟨u, not_resting hi (by simp), ?_⟩
        simp only [running, State.Enabled, hi, Instr.CanStep]
        exact hown
      | some v =>
        have hv : l ∈ p.held (s.pc v) := (h l v).mp hown
        cases hiv : p.instr (s.pc v) with
        | lock k nextv => exact ih k ((hp.lock _ k nextv hiv).1 l hv) v nextv hiv
        | unlock k nextv =>
          exact ⟨v, not_resting hiv (by simp), by simp only [running, State.Enabled, hiv, Instr.CanStep]⟩
        | act f => exact ⟨v, not_resting hiv (by simp), by simp only [running, State.Enabled, hiv, Instr.CanStep]⟩
        | rest nextv =>
          rw [(hp.rest _ nextv hiv).1] at hv
          cases hv
        | crash => exact absurd hiv (hcrash v)
  cases hi : p.instr (s.pc t) with
  | lock l next => exact hchain l t next hi
  | unlock l next => exact ⟨t, ht, by simp only [running, State.Enabled, hi, Instr.CanStep]⟩
  | act f => exact ⟨t, ht, by simp only [running, State.Enabled, hi, Instr.CanStep]⟩
  | rest next => exact absurd ⟨next, hi⟩ ht
  | crash => exact absurd hi (hcrash t)

/-! ## Every call ends -/

/-- Each instruction that is executed lowers the cost of what is left. -/
structure Program.Lowers (p : Program L σ ε Pc) (cost : Pc → ℕ) : Prop where
  lock : ∀ pc l next, p.instr pc = .lock l next → cost next < cost pc
  unlock : ∀ pc l next, p.instr pc = .unlock l next → cost next < cost pc
  act : ∀ pc f, p.instr pc = .act f → ∀ s, cost (f s).2.1 < cost pc

/-- The outside does nothing. -/
abbrev alone : Policy (Act T Pc) (Option ε) := fun _ a => ∃ t, a = .step t

/-- Only threads of `B` are under way. -/
def Within (p : Program L σ ε Pc) (B : Finset T) (s : State T L σ Pc) : Prop :=
  ∀ t, t ∉ B → p.Resting (s.pc t)

/-- What is left for the threads of `B`. -/
def State.left (cost : Pc → ℕ) (B : Finset T) (s : State T L σ Pc) : ℕ := ∑ t ∈ B, cost (s.pc t)

variable {cost : Pc → ℕ} {B : Finset T}

omit [DecidableEq L] [Preorder L] in
theorem left_goto (ht : t ∈ B) {pc : Pc} (hlt : cost pc < cost (s.pc t)) :
    (s.goto t pc).left cost B < s.left cost B := by
  have hrest : ∑ u ∈ B.erase t, cost ((s.goto t pc).pc u) = ∑ u ∈ B.erase t, cost (s.pc u) :=
    Finset.sum_congr rfl fun u hu => by rw [goto_other s pc (Finset.ne_of_mem_erase hu)]
  rw [State.left, State.left, ← Finset.add_sum_erase B _ ht, ← Finset.add_sum_erase B _ ht, hrest,
    goto_self]
  omega

omit [Preorder L] in
theorem step_lowers (hc : p.Lowers cost) (hB : Within p B s)
    (he : (running T p).enabled s (.step t)) :
    Within p B ((running T p).next s (.step t)).1 ∧
      ((running T p).next s (.step t)).1.left cost B < s.left cost B := by
  have htB : t ∈ B := by
    by_contra hout
    exact step_under_way he (hB t hout)
  constructor
  · intro u hu
    have hne : u ≠ t := by
      rintro rfl
      exact hu htB
    rw [next_other he hne]
    exact hB u hu
  · have hmoves := moves_of_enabled he
    generalize (running T p).next s (.step t) = res at hmoves
    cases hmoves with
    | locked t l next hi hfree => exact left_goto htB (hc.lock _ l next hi)
    | unlocked t l next hi => exact left_goto htB (hc.unlock _ l next hi)
    | acted t f hi => exact left_goto htB (hc.act _ f hi s.shared)

omit [Preorder L] in
/-- A schedule without new calls is no longer than what is left. -/
theorem schedule_length (hc : p.Lowers cost) (hB : Within p B s) {tr₀ tr : List (Act T Pc × Option ε)}
    {s' : State T L σ Pc} (hpath : Path (running T p) alone tr₀ s tr s') :
    Within p B s' ∧ tr.length + s'.left cost B ≤ s.left cost B := by
  induction hpath with
  | refl => exact ⟨hB, by simp⟩
  | step a _ hp he ih =>
    obtain ⟨t, rfl⟩ := hp
    obtain ⟨hB', hlen⟩ := ih
    obtain ⟨hnext, hlt⟩ := step_lowers hc hB' he
    refine ⟨hnext, ?_⟩
    rw [List.length_append, List.length_singleton]
    omega

/-- **Every call ends.**  Unless a thread crashes, some schedule without new calls brings all
threads to rest. -/
theorem calls_end [WellFoundedGT L] (hp : p.Disciplined) (hc : p.Lowers cost) (h : Owned p s)
    (hB : Within p B s) (tr₀ : List (Act T Pc × Option ε))
    (hcrash : ∀ tr s', Path (running T p) alone tr₀ s tr s' → ∀ u, p.instr (s'.pc u) ≠ .crash) :
    ∃ tr s', Path (running T p) alone tr₀ s tr s' ∧ ∀ t, p.Resting (s'.pc t) := by
  generalize hn : s.left cost B = n
  induction n using Nat.strong_induction_on generalizing s tr₀ with
  | _ n ih =>
    by_cases hall : ∀ t, p.Resting (s.pc t)
    · exact ⟨[], s, .refl, hall⟩
    · obtain ⟨t, ht⟩ := not_forall.mp hall
      obtain ⟨u, -, he⟩ := h.progress hp (hcrash [] s .refl) ht
      obtain ⟨hB', hlt⟩ := step_lowers hc hB he
      have hfirst : Path (running T p) alone tr₀ s _ _ := .single (.step u) ⟨u, rfl⟩ he
      have hcrash' : ∀ tr s', Path (running T p) alone
          (tr₀ ++ [(.step u, ((running T p).next s (.step u)).2)])
          ((running T p).next s (.step u)).1 tr s' → ∀ v, p.instr (s'.pc v) ≠ .crash :=
        fun tr s' hpath => hcrash _ s' (hfirst.trans hpath)
      obtain ⟨tr, s', hpath, hrest⟩ := ih _ (hn ▸ hlt) (h.next hp he) hB' _ hcrash' rfl
      exact ⟨_, s', hfirst.trans hpath, hrest⟩

/-- The threads that a history sends on. -/
def resumed (tr : List (Act T Pc × Option ε)) : Finset T :=
  (tr.filterMap fun e => match e.1 with | .resume t _ => some t | .step _ => none).toFinset

omit [Preorder L] in
/-- Only threads that were sent on are under way. -/
theorem run_within {P : Policy (Act T Pc) (Option ε)} {shared : σ} {pc : Pc} (hpc : p.Resting pc)
    {tr : List (Act T Pc × Option ε)} (hrun : Run (running T p) P (.start shared pc) tr s) :
    Within p (resumed tr) s := by
  refine hrun.invariant (fun tr s => Within p (resumed tr) s) (fun _ _ => hpc) ?_
  intro tr s a hB _ he u hu
  rw [resumed, List.filterMap_append, List.toFinset_append, Finset.notMem_union] at hu
  obtain ⟨hold, hnew⟩ := hu
  have hne : u ≠ a.thread := by
    rintro rfl
    cases a with
    | resume t pc => exact hnew (by simp [Act.thread])
    | step t => exact step_under_way he (hB t hold)
  rw [next_other he hne]
  exact hB u hold

end Locks
