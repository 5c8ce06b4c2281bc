import BDTun.Ownership
import BDTun.Conservation

/-!
# The in-flight counters

A submission puts its bio on the incoming list first and counts it later; a
completion counts it down before it takes it off the pending list.  In between
the counter of a direction is short of what is listed, by the submissions that
are still to count and by the completion that has counted already.

* `Tallied.next`: every step of a well-behaved client keeps that balance.
* `in_flight`: the counters are never negative exactly when each completion counts
  down while fewer submissions of its direction are still to count than bios of it
  are listed; with nothing under way they are the numbers of bios listed.
-/

namespace BDTun

open Machine

section
variable [Kernel]

/-- The bios among these that go in a direction. -/
def dirCount (bios : List Bio) (d : Nat) : Nat := bios.countP fun bio => bioDataDir bio = d

/-- The entries on the two lists. -/
def Threads.linked (t : Threads) : List Addr :=
  t.world.dev.incomingBioList ++ t.world.dev.pendingBioList

/-- The bios of a direction that are listed. -/
def Threads.listed (t : Threads) (d : Nat) : Nat := dirCount (t.world.biosOf t.linked) d

/-- The submissions of a direction that are on the list and still to count. -/
def Threads.uncounted (t : Threads) (d : Nat) : Nat := dirCount (t.posted ++ t.woke) d

/-- The completion of a direction that has counted down and is still to unlink. -/
def Threads.ahead (t : Threads) (d : Nat) : Nat :=
  match t.finishing with
  | some (_, entry, .counted) => dirCount [entry.bio] d
  | _ => 0

/-- `in_flight[d]` of the device's disk -/
def Threads.inFlight (t : Threads) (d : Nat) : Int := t.world.dev.bdGd.part0.inFlight d

/-- A completion only of the data-current request, while it is pending. -/
def WellBehaved (t : Threads) : Step → Prop
  | .endio _ => t.world.dev.dataCurrentBio ∈ t.world.dev.pendingBioList
  | _ => True

instance (t : Threads) (e : Step) : Decidable (WellBehaved t e) :=
  match e with
  | .endio _ => inferInstanceAs (Decidable (_ ∈ _))
  | .refuse _ | .append _ _ | .wakeUp _ | .account _ | .enter _ | .prepareToWait _ | .check _
  | .schedule _ | .signal _ | .finishWait _ _ | .chOpen | .chRelease | .setCurrent _ | .transfer
  | .iostat | .unlink | .free => isTrue trivial

/-- No submission and no completion is under way. -/
def Threads.Quiet (t : Threads) : Prop := t.posted = [] ∧ t.woke = [] ∧ t.finishing = none

/-- What the counters are for. -/
structure InFlightExact (t : Threads) : Prop where
  nonneg : ∀ d, 0 ≤ t.inFlight d
  exact : t.Quiet → ∀ d, t.inFlight d = t.listed d

/-- A completion counts down while fewer submissions of its direction are still to count than bios of
it are listed. -/
def CountsDown (t : Threads) : Step → Prop
  | .iostat => ∀ a entry stage, t.finishing = some (a, entry, stage) →
      t.uncounted (bioDataDir entry.bio) < t.listed (bioDataDir entry.bio)
  | _ => True

/-! ## Counting -/

theorem dirCount_append (l₁ l₂ : List Bio) (d : Nat) :
    dirCount (l₁ ++ l₂) d = dirCount l₁ d + dirCount l₂ d :=
  List.countP_append

theorem dirCount_perm {l₁ l₂ : List Bio} (h : l₁.Perm l₂) (d : Nat) :
    dirCount l₁ d = dirCount l₂ d :=
  h.countP_eq _

theorem dirCount_cons (bio : Bio) (l : List Bio) (d : Nat) :
    dirCount (bio :: l) d = dirCount [bio] d + dirCount l d :=
  dirCount_append [bio] l d

/-- A bio counts for its own direction, once. -/
theorem dirCount_one (bio : Bio) (d : Nat) :
    dirCount [bio] d = if d = bioDataDir bio then 1 else 0 := by
  unfold dirCount
  rw [List.countP_singleton]
  by_cases h : d = bioDataDir bio
  · simp [h]
  · have hne : ¬ bioDataDir bio = d := fun heq => h heq.symm
    simp [h, hne]

/-- One more, or one less, for one direction. -/
theorem bump_dirCount (f : Nat → Int) (bio : Bio) (n : Int) (d : Nat) :
    bump f (bioDataDir bio) n d = f d + n * dirCount [bio] d := by
  rw [dirCount_one, bump]
  by_cases h : d = bioDataDir bio
  · subst h
    simp
  · simp [h]

/-! ## The balance -/

/-- What the counters are short of, and what keeps it so. -/
structure Tallied (t : Threads) : Prop where
  nodup : t.linked.Nodup
  live : ∀ a ∈ t.linked, (t.world.entries a).isSome
  entry : ∀ a entry stage, t.finishing = some (a, entry, stage) → t.world.entries a = some entry
  pending : ∀ a entry stage, t.finishing = some (a, entry, stage) → stage ≠ .unlinked →
    a ∈ t.world.dev.pendingBioList
  gone : ∀ a entry, t.finishing = some (a, entry, .unlinked) → a ∉ t.linked
  balance : ∀ d, t.inFlight d + t.uncounted d + t.ahead d = t.listed d

/-- The lists are rearranged. -/
theorem Tallied.move {t u : Threads} (h : Tallied t) (hlinked : u.linked.Perm t.linked)
    (hent : u.world.entries = t.world.entries) (hfin : u.finishing = t.finishing)
    (hpend : t.pendingFree = true ∨ ∀ a ∈ t.world.dev.pendingBioList, a ∈ u.world.dev.pendingBioList)
    (hposted : u.posted = t.posted) (hwoke : u.woke = t.woke)
    (hcount : u.world.dev.bdGd.part0.inFlight = t.world.dev.bdGd.part0.inFlight) : Tallied u := by
  have hlisted : ∀ d, u.listed d = t.listed d := by
    intro d
    have hbios : u.world.biosOf t.linked = t.world.biosOf t.linked :=
      biosOf_congr fun a _ => by rw [hent]
    rw [Threads.listed, dirCount_perm (biosOf_perm u.world hlinked), hbios]
    rfl
  refine ⟨hlinked.nodup_iff.mpr h.nodup, ?_, ?_, ?_, ?_, fun d => ?_⟩
  · intro a ha
    rw [hent]
    exact h.live a (hlinked.mem_iff.mp ha)
  · rw [hfin, hent]; exact h.entry
  · rw [hfin]
    intro a entry stage heq hstage
    rcases hpend with hfree | hsub
    · -- a completion that has not unlinked holds the lock
      rw [Threads.pendingFree, heq] at hfree
      exact absurd (of_decide_eq_true hfree) hstage
    · exact hsub a (h.pending a entry stage heq hstage)
  · rw [hfin]
    intro a entry heq ha
    exact h.gone a entry heq (hlinked.mem_iff.mp ha)
  · have hbalance := h.balance d
    rw [hlisted, ← hbalance, Threads.inFlight, Threads.uncounted, Threads.ahead, hcount, hposted,
      hwoke, hfin]
    rfl

/-- A step that touches none of it. -/
theorem Tallied.same {t u : Threads} (h : Tallied t)
    (hin : u.world.dev.incomingBioList = t.world.dev.incomingBioList)
    (hpend : u.world.dev.pendingBioList = t.world.dev.pendingBioList)
    (hent : u.world.entries = t.world.entries) (hfin : u.finishing = t.finishing)
    (hposted : u.posted = t.posted) (hwoke : u.woke = t.woke)
    (hcount : u.world.dev.bdGd.part0.inFlight = t.world.dev.bdGd.part0.inFlight) : Tallied u := by
  refine h.move ?_ hent hfin (Or.inr fun a ha => ?_) hposted hwoke hcount
  · rw [Threads.linked, hin, hpend]
    rfl
  · rwa [hpend]

theorem Tallied.append {t : Threads} (h : Tallied t) (bio : Bio) {new : Addr}
    (hnew : t.world.entries new = none) : Tallied (t.next (.append bio new)).1 := by
  have hfresh : ∀ a ∈ t.linked, a ≠ new := by
    rintro a ha rfl
    have hlive := h.live a ha
    rw [hnew] at hlive
    cases hlive
  have hold : ∀ a, a ≠ new →
      (t.next (.append bio new)).1.world.entries a = t.world.entries a := by
    intro a ha
    exact Function.update_of_ne ha _ _
  have hone : (t.next (.append bio new)).1.world.entries new = some ⟨bio, t.world.jiffies⟩ :=
    Function.update_self ..
  have hperm : (t.next (.append bio new)).1.linked.Perm (new :: t.linked) := by
    unfold Threads.linked
    show (t.world.dev.incomingBioList ++ [new] ++ t.world.dev.pendingBioList).Perm _
    rw [List.append_assoc]
    exact List.perm_middle
  have hfinishing : ∀ a entry stage, t.finishing = some (a, entry, stage) → a ≠ new := by
    rintro a entry stage heq rfl
    rw [h.entry a entry stage heq] at hnew
    cases hnew
  refine ⟨?_, ?_, ?_, ?_, ?_, fun d => ?_⟩
  · rw [hperm.nodup_iff, List.nodup_cons]
    exact ⟨fun hin => hfresh new hin rfl, h.nodup⟩
  · intro a ha
    rcases List.mem_cons.mp (hperm.mem_iff.mp ha) with rfl | hin
    · rw [hone]; rfl
    · rw [hold a (hfresh a hin)]
      exact h.live a hin
  · intro a entry stage heq
    rw [hold a (hfinishing a entry stage heq)]
    exact h.entry a entry stage heq
  · exact h.pending
  · intro a entry heq ha
    rcases List.mem_cons.mp (hperm.mem_iff.mp ha) with rfl | hin
    · exact hfinishing a entry _ heq rfl
    · exact h.gone a entry heq hin
  · -- one more on the list, and one more to count
    have hlisted : (t.next (.append bio new)).1.listed d = dirCount [bio] d + t.listed d := by
      have hbios : (t.next (.append bio new)).1.world.biosOf t.linked = t.world.biosOf t.linked :=
        biosOf_congr fun a ha => hold a (hfresh a ha)
      rw [Threads.listed, dirCount_perm (biosOf_perm _ hperm), biosOf_cons hone, dirCount_cons, hbios]
      rfl
    have huncounted : (t.next (.append bio new)).1.uncounted d =
        dirCount [bio] d + t.uncounted d := by
      unfold Threads.uncounted
      show dirCount (t.posted ++ [bio] ++ t.woke) d = _
      rw [dirCount_append, dirCount_append, dirCount_append]
      omega
    have hbalance := h.balance d
    have hsame : (t.next (.append bio new)).1.inFlight d = t.inFlight d := rfl
    have hahead : (t.next (.append bio new)).1.ahead d = t.ahead d := rfl
    rw [hlisted, huncounted, hsame, hahead]
    omega

theorem Tallied.account {t : Threads} (h : Tallied t) {bio : Bio} (hbio : bio ∈ t.woke) :
    Tallied (t.next (.account bio)).1 := by
  refine ⟨h.nodup, h.live, h.entry, h.pending, h.gone, fun d => ?_⟩
  have huncounted : t.uncounted d = dirCount [bio] d + (t.next (.account bio)).1.uncounted d := by
    have hperm := (List.perm_cons_erase hbio).append_left t.posted
    unfold Threads.uncounted
    rw [dirCount_perm (hperm.trans List.perm_middle), dirCount_cons]
    rfl
  have hcount : (t.next (.account bio)).1.inFlight d = t.inFlight d + 1 * dirCount [bio] d :=
    bump_dirCount ..
  have hlisted : (t.next (.account bio)).1.listed d = t.listed d := rfl
  have hahead : (t.next (.account bio)).1.ahead d = t.ahead d := rfl
  have hbalance := h.balance d
  rw [hcount, hlisted, hahead]
  omega

theorem Tallied.iostat {t : Threads} (h : Tallied t) {a : Addr} {entry : BioListEntry}
    (hfin : t.finishing = some (a, entry, .ended)) :
    Tallied (t.next .iostat).1 ∧
      ∀ d, (t.next .iostat).1.inFlight d = t.inFlight d - dirCount [entry.bio] d := by
  have hnext : (t.next .iostat).1.finishing = some (a, entry, .counted) := by
    simp only [Threads.next, hfin]
  have hworld : (t.next .iostat).1.world = t.world.updateIostat entry := by
    simp only [Threads.next, hfin]
  have hlinked : (t.next .iostat).1.linked = t.linked := by
    rw [Threads.linked, hworld]
    rfl
  have hpending := h.pending a entry _ hfin (by decide)
  have hcount : ∀ d, (t.next .iostat).1.inFlight d = t.inFlight d - dirCount [entry.bio] d := by
    intro d
    have hbump := bump_dirCount t.world.dev.bdGd.part0.inFlight entry.bio (-1) d
    rw [Threads.inFlight, hworld]
    rw [show (t.world.updateIostat entry).dev.bdGd.part0.inFlight d = _ from hbump, Threads.inFlight]
    omega
  refine ⟨⟨?_, ?_, ?_, ?_, ?_, fun d => ?_⟩, hcount⟩
  · rw [hlinked]; exact h.nodup
  · rw [hlinked, hworld]; exact h.live
  · rw [hnext, hworld]
    intro b entry' stage heq
    cases heq
    exact h.entry a entry _ hfin
  · rw [hnext, hworld]
    intro b entry' stage heq _
    cases heq
    exact hpending
  · rw [hnext]
    intro b entry' heq
    cases heq
  · have hahead : (t.next .iostat).1.ahead d = dirCount [entry.bio] d := by
      rw [Threads.ahead, hnext]
    have hbefore : t.ahead d = 0 := by
      rw [Threads.ahead, hfin]
    have hlisted : (t.next .iostat).1.listed d = t.listed d := by
      rw [Threads.listed, hlinked, hworld]
      rfl
    have huncounted : (t.next .iostat).1.uncounted d = t.uncounted d := by
      simp only [Threads.next, hfin, Threads.uncounted]
    have hbalance := h.balance d
    rw [hcount, hahead, hlisted, huncounted]
    omega

theorem Tallied.unlink {t : Threads} (h : Tallied t) {a : Addr} {entry : BioListEntry}
    (hfin : t.finishing = some (a, entry, .counted)) : Tallied (t.next .unlink).1 := by
  have hnext : (t.next .unlink).1.finishing = some (a, entry, .unlinked) := by
    simp only [Threads.next, hfin]
  have hworld : (t.next .unlink).1.world = t.world.listDel a := by
    simp only [Threads.next, hfin]
  have hpending := h.pending a entry _ hfin (by decide)
  have hentry := h.entry a entry _ hfin
  have hnodup := h.nodup
  rw [Threads.linked, List.nodup_append'] at hnodup
  have hincoming : a ∉ t.world.dev.incomingBioList := fun hin => hnodup.2.2 hin hpending
  have hlinked : (t.next .unlink).1.linked =
      t.world.dev.incomingBioList ++ t.world.dev.pendingBioList.erase a := by
    rw [Threads.linked, hworld, World.listDel_dev_incomingBioList, World.listDel_dev_pendingBioList,
      List.erase_of_not_mem hincoming]
  have hperm : t.linked.Perm (a :: (t.next .unlink).1.linked) := by
    rw [hlinked]
    exact ((List.perm_cons_erase hpending).append_left _).trans List.perm_middle
  have hsub := List.nodup_cons.mp (hperm.nodup_iff.mp h.nodup)
  refine ⟨hsub.2, ?_, ?_, ?_, ?_, fun d => ?_⟩
  · intro b hb
    rw [hworld]
    exact h.live b (hperm.mem_iff.mpr (List.mem_cons_of_mem _ hb))
  · rw [hnext, hworld]
    intro b entry' stage heq
    cases heq
    exact hentry
  · rw [hnext]
    intro b entry' stage heq hstage
    cases heq
    exact absurd rfl hstage
  · rw [hnext]
    intro b entry' heq
    cases heq
    exact hsub.1
  · have hlisted : t.listed d = dirCount [entry.bio] d + (t.next .unlink).1.listed d := by
      have hbios : (t.next .unlink).1.world.biosOf (t.next .unlink).1.linked =
          t.world.biosOf (t.next .unlink).1.linked :=
        biosOf_congr fun b _ => by rw [hworld]; rfl
      rw [Threads.listed, Threads.listed, hbios, dirCount_perm (biosOf_perm t.world hperm),
        biosOf_cons hentry, dirCount_cons]
    have hbefore : t.ahead d = dirCount [entry.bio] d := by
      rw [Threads.ahead, hfin]
    have hahead : (t.next .unlink).1.ahead d = 0 := by
      rw [Threads.ahead, hnext]
    have hcount : (t.next .unlink).1.inFlight d = t.inFlight d := by
      rw [Threads.inFlight, hworld]
      rfl
    have huncounted : (t.next .unlink).1.uncounted d = t.uncounted d := by
      simp only [Threads.next, hfin, Threads.uncounted]
    have hbalance := h.balance d
    rw [hcount, hahead, huncounted]
    omega

theorem Tallied.free {t : Threads} (h : Tallied t) {a : Addr} {entry : BioListEntry}
    (hfin : t.finishing = some (a, entry, .unlinked)) : Tallied (t.next .free).1 := by
  have hnext : (t.next .free).1.finishing = none := by
    simp only [Threads.next, hfin]
  have hworld : (t.next .free).1.world = t.world.kfree a := by
    simp only [Threads.next, hfin]
  have hgone := h.gone a entry hfin
  have hlinked : (t.next .free).1.linked = t.linked := by
    rw [Threads.linked, hworld]
    rfl
  have hold : ∀ b ∈ t.linked, (t.next .free).1.world.entries b = t.world.entries b := by
    intro b hb
    rw [hworld, World.kfree_entries]
    refine Function.update_of_ne ?_ _ _
    rintro rfl
    exact hgone hb
  refine ⟨?_, ?_, ?_, ?_, ?_, fun d => ?_⟩
  · rw [hlinked]; exact h.nodup
  · rw [hlinked]
    intro b hb
    rw [hold b hb]
    exact h.live b hb
  · rw [hnext]; intro b entry' stage heq; cases heq
  · rw [hnext]; intro b entry' stage heq; cases heq
  · rw [hnext]; intro b entry' heq; cases heq
  · have hlisted : (t.next .free).1.listed d = t.listed d := by
      rw [Threads.listed, hlinked, biosOf_congr hold]
      rfl
    have hbefore : t.ahead d = 0 := by
      rw [Threads.ahead, hfin]
    have hahead : (t.next .free).1.ahead d = 0 := by
      rw [Threads.ahead, hnext]
    have hcount : (t.next .free).1.inFlight d = t.inFlight d := by
      rw [Threads.inFlight, hworld]
      rfl
    have huncounted : (t.next .free).1.uncounted d = t.uncounted d := by
      simp only [Threads.next, hfin, Threads.uncounted]
    have hbalance := h.balance d
    rw [hcount, hahead, huncounted, hlisted]
    omega

/-- **Every step of a well-behaved client keeps it.** -/
theorem Tallied.next {t : Threads} (h : Tallied t) (e : Step) (he : t.Enabled e)
    (hw : WellBehaved t e) : Tallied (t.next e).1 := by
  cases e with
  | refuse bio => exact h.same rfl rfl rfl rfl rfl rfl rfl
  | append bio new => exact h.append bio he.1
  | wakeUp bio =>
    -- the submission goes on to its accounting
    have hperm : (t.posted.erase bio ++ (t.woke ++ [bio])).Perm (t.posted ++ t.woke) := by
      have hback : (t.posted.erase bio ++ (t.woke ++ [bio])).Perm
          (bio :: t.posted.erase bio ++ t.woke) := by
        rw [← List.append_assoc]
        exact List.perm_append_comm
      exact hback.trans ((List.perm_cons_erase he).symm.append_right _)
    refine ⟨h.nodup, h.live, h.entry, h.pending, h.gone, fun d => ?_⟩
    have huncounted : (t.next (.wakeUp bio)).1.uncounted d = t.uncounted d := dirCount_perm hperm d
    rw [huncounted]
    exact h.balance d
  | account bio => exact h.account he
  | enter r => exact h.same rfl rfl rfl rfl rfl rfl rfl
  | prepareToWait r => exact h.same rfl rfl rfl rfl rfl rfl rfl
  | check r =>
    obtain ⟨-, hfree, -⟩ := he
    simp only [Threads.next]
    cases hl : t.world.dev.incomingBioList with
    | nil => exact h.same rfl rfl rfl rfl rfl rfl rfl
    | cons a rest =>
      simp only
      cases hent : t.world.entries a with
      | none => exact h.same rfl rfl rfl rfl rfl rfl rfl
      | some entry =>
        refine h.move ?_ rfl rfl (Or.inl hfree) rfl rfl rfl
        unfold Threads.linked
        rw [hl]
        show (rest ++ (t.world.dev.pendingBioList ++ [a])).Perm _
        rw [← List.append_assoc]
        exact List.perm_append_comm
  | schedule r => exact h.same rfl rfl rfl rfl rfl rfl rfl
  | signal r => exact h.same rfl rfl rfl rfl rfl rfl rfl
  | finishWait r signal => exact h.same rfl rfl rfl rfl rfl rfl rfl
  | chOpen =>
    obtain ⟨hin, hpend⟩ := bdtunchOpen_lists t.world.dev
    refine h.same hin hpend rfl rfl rfl rfl ?_
    simp only [Threads.next, bdtunchOpen]
    split <;> rfl
  | chRelease =>
    refine h.move ?_ rfl rfl (Or.inl he.1) rfl rfl rfl
    show (t.world.dev.incomingBioList ++ t.world.dev.pendingBioList ++ []).Perm _
    rw [List.append_nil]
    exact List.Perm.refl _
  | setCurrent id => exact h.same rfl rfl rfl rfl rfl rfl rfl
  | transfer =>
    simp only [Threads.next]
    split <;> exact h.same rfl rfl rfl rfl rfl rfl rfl
  | endio byte =>
    obtain ⟨hnone, hlive⟩ := he
    obtain ⟨entry, hent⟩ := Option.isSome_iff_exists.mp hlive
    have hfin : t.finishing = none := Option.isNone_iff_eq_none.mp hnone
    simp only [Threads.next, hent]
    refine ⟨h.nodup, h.live, ?_, ?_, ?_, fun d => ?_⟩
    · intro a entry' stage heq
      cases heq
      exact hent
    · intro a entry' stage heq _
      cases heq
      exact hw
    · intro a entry' heq
      cases heq
    · have hbalance := h.balance d
      rw [Threads.ahead, hfin] at hbalance
      exact hbalance
  | iostat =>
    obtain ⟨a, entry, hfin⟩ := Threads.at_some he
    exact (h.iostat hfin).1
  | unlink =>
    obtain ⟨a, entry, hfin⟩ := Threads.at_some he
    exact h.unlink hfin
  | free =>
    obtain ⟨a, entry, hfin⟩ := Threads.at_some he
    exact h.free hfin

theorem run_tallied {blockSize size : Nat} {mem : Mem} {tr : List (Step × List Touch)}
    {t : Threads} (h : Run (threads.restrict WellBehaved) anyone
      (Threads.start (World.init blockSize size mem)) tr t) : Tallied t := by
  refine h.invariant (fun _ => Tallied) ?_ ?_
  · refine ⟨List.nodup_nil, ?_, ?_, ?_, ?_, fun d => rfl⟩
    · intro a ha
      cases ha
    · intro a entry stage heq
      cases heq
    · intro a entry stage heq
      cases heq
    · intro a entry heq
      cases heq
  · intro tr t e ht _ he
    exact ht.next e he.1 he.2

/-- With nothing under way the counters are the numbers of bios listed. -/
theorem Tallied.quiet {t : Threads} (h : Tallied t) (hq : t.Quiet) (d : Nat) :
    t.inFlight d = t.listed d := by
  obtain ⟨hposted, hwoke, hfin⟩ := hq
  have hbalance := h.balance d
  have hahead : t.ahead d = 0 := by rw [Threads.ahead, hfin]
  have hnone : t.uncounted d = 0 := by
    rw [Threads.uncounted, hposted, hwoke]
    rfl
  omega

/-- Only the accounting of a completion counts down. -/
theorem inFlight_le (t : Threads) {e : Step} (he : e ≠ .iostat) (d : Nat) :
    t.inFlight d ≤ (t.next e).1.inFlight d := by
  cases e with
  | iostat => exact absurd rfl he
  | account bio =>
    have hcount : (t.next (.account bio)).1.inFlight d = t.inFlight d + 1 * dirCount [bio] d :=
      bump_dirCount ..
    omega
  | chOpen =>
    simp only [Threads.next, Threads.inFlight, bdtunchOpen]
    split <;> exact Int.le_refl _
  | check r =>
    simp only [Threads.next]
    split
    · exact Int.le_refl _
    · split <;> exact Int.le_refl _
  | transfer => simp only [Threads.next]; split <;> exact Int.le_refl _
  | endio byte => simp only [Threads.next]; split <;> exact Int.le_refl _
  | unlink => simp only [Threads.next]; split <;> exact Int.le_refl _
  | free => simp only [Threads.next]; split <;> exact Int.le_refl _
  | _ => exact Int.le_refl _

/-- **What takes a counter below zero**: a completion that counts down before the submissions have
counted what is listed. -/
theorem exact_next {t : Threads} (h : Tallied t) (e : Step) (he : t.Enabled e)
    (hw : WellBehaved t e) (hexact : InFlightExact t) :
    InFlightExact (t.next e).1 ↔ CountsDown t e := by
  have hkept := h.next e he hw
  have hiff : InFlightExact (t.next e).1 ↔ ∀ d, 0 ≤ (t.next e).1.inFlight d :=
    ⟨InFlightExact.nonneg, fun hnonneg => ⟨hnonneg, hkept.quiet⟩⟩
  rw [hiff]
  have hnonneg := hexact.nonneg
  by_cases hstep : e = .iostat
  · subst hstep
    obtain ⟨a, entry, hfin⟩ := Threads.at_some he
    have hcount := (h.iostat hfin).2
    have hown := h.balance (bioDataDir entry.bio)
    have hahead : t.ahead (bioDataDir entry.bio) = 0 := by rw [Threads.ahead, hfin]
    constructor
    · intro hafter b entry' stage heq
      rw [hfin] at heq
      cases heq
      have hpos := hafter (bioDataDir entry.bio)
      rw [hcount, dirCount_one, if_pos rfl] at hpos
      omega
    · intro hdown d
      have hfew := hdown a entry _ hfin
      rw [hcount, dirCount_one]
      by_cases hd : d = bioDataDir entry.bio
      · subst hd
        rw [if_pos rfl]
        omega
      · rw [if_neg hd]
        have := hnonneg d
        omega
  · have hrest : CountsDown t e := by
      cases e with
      | iostat => exact absurd rfl hstep
      | _ => trivial
    exact ⟨fun _ => hrest, fun _ d => Int.le_trans (hnonneg d) (inFlight_le t hstep d)⟩

/-- **The in-flight counters.**  In every run of submissions, deliveries and completions by a
well-behaved client: the counters are exact in every state exactly when each completion counts down
while fewer submissions of its direction are still to count than bios of it are listed.  With nothing
under way they are the numbers of bios listed, in any case. -/
theorem in_flight {blockSize size : Nat} {mem : Mem} {tr : List (Step × List Touch)} {t : Threads}
    (h : Run (threads.restrict WellBehaved) anyone (Threads.start (World.init blockSize size mem)) tr
      t) :
    (AllStates (threads.restrict WellBehaved) anyone (Threads.start (World.init blockSize size mem))
        InFlightExact tr ↔
      AllSteps (threads.restrict WellBehaved) anyone (Threads.start (World.init blockSize size mem))
        CountsDown tr) ∧
    (t.Quiet → ∀ d, t.inFlight d = t.listed d) := by
  refine ⟨h.allStates_iff ?_ ?_, (run_tallied h).quiet⟩
  · exact ⟨fun d => Int.le_refl _, (run_tallied .refl).quiet⟩
  · intro tr t e ht _ he hexact
    exact exact_next (run_tallied ht) e he.1 he.2 hexact

end

section
attribute [local instance] linux32

/-- The bio is completed before its submission has counted it. -/
theorem counter_negative : ¬ ∀ tr t, Run (threads.restrict WellBehaved) anyone
    (Threads.start (World.init 512 1024 fun _ => 0)) tr t → InFlightExact t := by
  intro h
  have hrun := @path_exec _ _ _ (threads.restrict WellBehaved) anyone []
    (Threads.start (World.init 512 1024 fun _ => 0)) (raceSteps.take 8) (by decide)
  exact absurd ((h _ _ hrun).nonneg dirWrite) (by decide)

/-- Two writes are submitted and counted; the first is delivered and completed. -/
theorem in_flight_sample :
    let other := { sampleWrite with biSector := 2 }
    let steps : List Step := [.append sampleWrite 16, .wakeUp sampleWrite, .account sampleWrite,
      .append other 24, .wakeUp other, .enter 0, .prepareToWait 0, .check 0, .setCurrent 16,
      .endio 0, .iostat, .account other, .unlink, .free]
    let start := Threads.start (World.init 512 1024 fun _ => 0)
    AllStates (threads.restrict WellBehaved) anyone start InFlightExact
        (traceOf (threads.restrict WellBehaved) start steps) ∧
      (exec (threads.restrict WellBehaved) start steps).inFlight dirWrite = 1 := by
  intro other steps start
  have hrun := @path_exec _ _ _ (threads.restrict WellBehaved) anyone [] start steps (by decide)
  obtain ⟨hiff, hquiet⟩ := in_flight hrun
  refine ⟨hiff.mpr (allSteps_exec steps ?_), (hquiet ⟨rfl, rfl, rfl⟩ dirWrite).trans (by decide)⟩
  refine ⟨trivial, trivial, trivial, trivial, trivial, trivial, trivial, trivial, trivial, trivial,
    ?_, trivial, trivial, trivial, trivial⟩
  -- one submission is still to count, and two bios are listed
  rintro a entry stage heq
  obtain ⟨rfl, rfl, rfl⟩ := heq
  decide

end

end BDTun
