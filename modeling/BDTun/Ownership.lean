import BDTun.Threads

/-!
# Who may touch a bio

`bio_endio` gives a bio back: its submitter may free it.  A completion calls
`bio_endio` first and then does its accounting, which looks into the bio; and
the accounting of a submission may come after the completion of its bio.

* `Ledger`: the bios given back, and those the driver touched after that.
* `late_iff_completed`: a bio is touched after it was given back exactly when a
  client completed it; a bio given back on submission never is.
-/

namespace BDTun

open Machine

section
variable [Kernel]

/-- The bios given back, and those touched after that. -/
structure Ledger where
  given : List Bio
  late : List Bio

def Ledger.record (l : Ledger) : Touch → Ledger
  | .use bio => if bio ∈ l.given then { l with late := bio :: l.late } else l
  | .giveBack bio =>
    { given := bio :: l.given, late := if bio ∈ l.given then bio :: l.late else l.late }

def ledger (tr : List (Step × List Touch)) : Ledger :=
  (tr.flatMap Prod.snd).foldl Ledger.record ⟨[], []⟩

/-- The bio that a step submits. -/
def Step.submits : Step → List Bio
  | .refuse bio => [bio]
  | .append bio _ => [bio]
  | _ => []

/-- The bios of the submissions of a history. -/
def submissions (tr : List (Step × List Touch)) : List Bio := tr.flatMap fun e => e.1.submits

/-- Those that were put on the incoming list. -/
def accepted (tr : List (Step × List Touch)) : List Bio :=
  tr.filterMap fun e => match e.1 with
    | .append bio _ => some bio
    | _ => none

/-- The bios that completions gave back. -/
def completed (tr : List (Step × List Touch)) : List Bio :=
  tr.filterMap fun e => match e with
    | (.endio _, [.giveBack bio]) => some bio
    | _ => none

/-- Each bio is submitted once. -/
def submitOnce : Policy Step (List Touch) := fun tr e => ∀ bio ∈ e.submits, bio ∉ submissions tr

instance (tr : List (Step × List Touch)) (e : Step) : Decidable (submitOnce tr e) :=
  inferInstanceAs (Decidable (∀ bio ∈ _, _))

/-- The bio that is touched. -/
def Touch.bio : Touch → Bio
  | .use bio => bio
  | .giveBack bio => bio

/-- A touch is late if its bio was given back before. -/
theorem mem_late_record (l : Ledger) (touch : Touch) (bio : Bio) :
    bio ∈ (l.record touch).late ↔ bio ∈ l.late ∨ (bio = touch.bio ∧ touch.bio ∈ l.given) := by
  cases touch with
  | use other =>
    simp only [Ledger.record, Touch.bio]
    split
    · next hin => simp only [List.mem_cons, hin, and_true]; exact or_comm
    · next hout => simp [hout]
  | giveBack other =>
    simp only [Ledger.record, Touch.bio]
    split
    · next hin => simp only [List.mem_cons, hin, and_true]; exact or_comm
    · next hout => simp [hout]

/-- A look gives nothing back. -/
theorem given_use (l : Ledger) (bio : Bio) : (l.record (.use bio)).given = l.given := by
  simp only [Ledger.record]
  split <;> rfl

theorem ledger_snoc (tr : List (Step × List Touch)) (e : Step) (ts : List Touch) :
    ledger (tr ++ [(e, ts)]) = ts.foldl Ledger.record (ledger tr) := by
  simp [ledger]

theorem accepted_sub (tr : List (Step × List Touch)) {bio : Bio} (h : bio ∈ accepted tr) :
    bio ∈ submissions tr := by
  obtain ⟨e, he, hbio⟩ := List.mem_filterMap.mp h
  refine List.mem_flatMap.mpr ⟨e, he, ?_⟩
  split at hbio
  · next heq =>
    rw [heq, ← Option.some.inj hbio]
    exact List.mem_cons_self
  · cases hbio

/-- The driver can reach the bio: from an allocated entry, a submission or a completion. -/
def Threads.Holds (t : Threads) (bio : Bio) : Prop :=
  (∃ a, t.world.bioAt a = some bio) ∨ bio ∈ t.posted ∨ bio ∈ t.woke ∨
    ∃ a entry stage, t.finishing = some (a, entry, stage) ∧ entry.bio = bio

/-- The completion under way has just given the bio back. -/
def Threads.Ending (t : Threads) (bio : Bio) : Prop :=
  ∃ a entry, t.finishing = some (a, entry, .ended) ∧ entry.bio = bio

structure Owned (tr : List (Step × List Touch)) (t : Threads) : Prop where
  given : ∀ bio ∈ (ledger tr).given,
    bio ∈ submissions tr ∧ (bio ∈ completed tr ∨ bio ∉ accepted tr)
  held : ∀ bio, t.Holds bio → bio ∈ accepted tr
  late : ∀ bio ∈ (ledger tr).late, bio ∈ completed tr
  back : ∀ bio ∈ completed tr, bio ∈ (ledger tr).given
  ending : ∀ bio, t.Ending bio → bio ∈ completed tr
  done : ∀ bio ∈ completed tr, bio ∈ (ledger tr).late ∨ t.Ending bio

/-- A step that is neither a submission nor the giving back of a completion. -/
def Step.plain : Step → Bool
  | .refuse _ => false
  | .append _ _ => false
  | .endio _ => false
  | _ => true

theorem submissions_snoc (tr : List (Step × List Touch)) (e : Step) (ts : List Touch) :
    submissions (tr ++ [(e, ts)]) = submissions tr ++ e.submits := by
  simp [submissions]

theorem accepted_snoc (tr : List (Step × List Touch)) (e : Step) (ts : List Touch) :
    accepted (tr ++ [(e, ts)]) = accepted tr ++ accepted [(e, ts)] :=
  List.filterMap_append

theorem completed_snoc (tr : List (Step × List Touch)) (e : Step) (ts : List Touch) :
    completed (tr ++ [(e, ts)]) = completed tr ++ completed [(e, ts)] :=
  List.filterMap_append

theorem plain_snoc (tr : List (Step × List Touch)) {e : Step} (he : e.plain = true)
    (ts : List Touch) :
    submissions (tr ++ [(e, ts)]) = submissions tr ∧ accepted (tr ++ [(e, ts)]) = accepted tr ∧
      completed (tr ++ [(e, ts)]) = completed tr := by
  rw [submissions_snoc, accepted_snoc, completed_snoc]
  cases e with
  | refuse bio => cases he
  | append bio new => cases he
  | endio byte => cases he
  | _ => exact ⟨List.append_nil _, List.append_nil _, List.append_nil _⟩

/-- A plain step that touches nothing. -/
theorem Owned.quiet {tr : List (Step × List Touch)} {t u : Threads} (h : Owned tr t) {e : Step}
    (he : e.plain = true) (hholds : ∀ bio, u.Holds bio → t.Holds bio)
    (hending : ∀ bio, u.Ending bio ↔ t.Ending bio) : Owned (tr ++ [(e, [])]) u := by
  obtain ⟨hsub, hacc, hcomp⟩ := plain_snoc tr he []
  have hledger : ledger (tr ++ [(e, [])]) = ledger tr := ledger_snoc tr e []
  constructor
  · rw [hledger, hsub, hacc, hcomp]; exact h.given
  · rw [hacc]; exact fun bio hb => h.held bio (hholds bio hb)
  · rw [hledger, hcomp]; exact h.late
  · rw [hledger, hcomp]; exact h.back
  · rw [hcomp]; exact fun bio hb => h.ending bio ((hending bio).mp hb)
  · rw [hledger, hcomp]
    intro bio hb
    rw [hending]
    exact h.done bio hb

/-- A plain step that looks into a bio the driver holds; it may be the accounting of a completion. -/
theorem Owned.look {tr : List (Step × List Touch)} {t u : Threads} (h : Owned tr t) {e : Step}
    (he : e.plain = true) {bio : Bio} (hbio : t.Holds bio)
    (hholds : ∀ bio, u.Holds bio → t.Holds bio) (hending : ∀ bio, u.Ending bio → t.Ending bio)
    (hdone : ∀ other, t.Ending other → u.Ending other ∨ other = bio) :
    Owned (tr ++ [(e, [.use bio])]) u := by
  obtain ⟨hsub, hacc, hcomp⟩ := plain_snoc tr he [.use bio]
  have hgiven : (ledger (tr ++ [(e, [.use bio])])).given = (ledger tr).given := by
    rw [ledger_snoc]
    exact given_use _ bio
  have hlate : ∀ other, other ∈ (ledger (tr ++ [(e, [.use bio])])).late ↔
      other ∈ (ledger tr).late ∨ (other = bio ∧ bio ∈ (ledger tr).given) := by
    intro other
    rw [ledger_snoc]
    exact mem_late_record _ (.use bio) other
  have hcompleted : bio ∈ (ledger tr).given → bio ∈ completed tr := by
    intro hin
    rcases (h.given bio hin).2 with hc | hn
    · exact hc
    · exact absurd (h.held bio hbio) hn
  constructor
  · rw [hgiven, hsub, hacc, hcomp]; exact h.given
  · rw [hacc]; exact fun other hb => h.held other (hholds other hb)
  · rw [hcomp]
    intro other hother
    rcases (hlate other).mp hother with hold | ⟨rfl, hin⟩
    · exact h.late other hold
    · exact hcompleted hin
  · rw [hgiven, hcomp]; exact h.back
  · rw [hcomp]; exact fun other hb => h.ending other (hending other hb)
  · rw [hcomp]
    intro other hother
    rw [hlate]
    rcases h.done other hother with hold | hend
    · exact Or.inl (Or.inl hold)
    · rcases hdone other hend with hkeep | rfl
      · exact Or.inr hkeep
      · exact Or.inl (Or.inr ⟨rfl, h.back other hother⟩)

/-- What a step that does not touch entries, submissions and completions holds. -/
theorem Owned.same {tr : List (Step × List Touch)} {t u : Threads} (h : Owned tr t) {e : Step}
    (he : e.plain = true) (hent : u.world.entries = t.world.entries) (hposted : u.posted = t.posted)
    (hwoke : u.woke = t.woke) (hfin : u.finishing = t.finishing) : Owned (tr ++ [(e, [])]) u := by
  apply h.quiet he
  · intro bio hbio
    simpa only [Threads.Holds, World.bioAt, hent, hposted, hwoke, hfin] using hbio
  · intro bio
    simp only [Threads.Ending, hfin]

theorem holds_entry {t : Threads} {a : Addr} {entry : BioListEntry}
    (h : t.world.entries a = some entry) : t.Holds entry.bio :=
  Or.inl ⟨a, by simp [World.bioAt, h]⟩

theorem Owned.refuse {tr : List (Step × List Touch)} {t : Threads} (h : Owned tr t) (bio : Bio)
    (hp : submitOnce tr (.refuse bio)) :
    Owned (tr ++ [(Step.refuse bio, [Touch.use bio, Touch.giveBack bio])])
      (t.next (.refuse bio)).1 := by
  have hnew : bio ∉ submissions tr := hp bio List.mem_cons_self
  have hfresh : bio ∉ (ledger tr).given := fun hin => hnew (h.given bio hin).1
  have hledger : ledger (tr ++ [(Step.refuse bio, [Touch.use bio, Touch.giveBack bio])]) =
      ⟨bio :: (ledger tr).given, (ledger tr).late⟩ := by
    rw [ledger_snoc]
    simp [Ledger.record, hfresh]
  have hsub : submissions _ = submissions tr ++ [bio] :=
    submissions_snoc tr (.refuse bio) [.use bio, .giveBack bio]
  have hacc : accepted _ = accepted tr :=
    (accepted_snoc tr (.refuse bio) [.use bio, .giveBack bio]).trans (List.append_nil _)
  have hcomp : completed _ = completed tr :=
    (completed_snoc tr (.refuse bio) [.use bio, .giveBack bio]).trans (List.append_nil _)
  constructor
  · rw [hledger, hsub, hacc, hcomp]
    intro other hother
    rcases List.mem_cons.mp hother with rfl | hold
    · exact ⟨by simp, Or.inr fun hin => hnew (accepted_sub tr hin)⟩
    · exact ⟨List.mem_append_left _ (h.given other hold).1, (h.given other hold).2⟩
  · rw [hacc]; exact h.held
  · rw [hledger, hcomp]; exact h.late
  · rw [hledger, hcomp]
    exact fun other hother => List.mem_cons_of_mem _ (h.back other hother)
  · rw [hcomp]; exact h.ending
  · rw [hledger, hcomp]; exact h.done

theorem Owned.append {tr : List (Step × List Touch)} {t : Threads} (h : Owned tr t) (bio : Bio)
    (new : Addr) (hp : submitOnce tr (.append bio new)) :
    Owned (tr ++ [(Step.append bio new, [Touch.use bio])]) (t.next (.append bio new)).1 := by
  have hnew : bio ∉ submissions tr := hp bio List.mem_cons_self
  have hfresh : bio ∉ (ledger tr).given := fun hin => hnew (h.given bio hin).1
  have hledger : ledger (tr ++ [(Step.append bio new, [Touch.use bio])]) = ledger tr := by
    rw [ledger_snoc]
    simp [Ledger.record, hfresh]
  have hsub : submissions _ = submissions tr ++ [bio] :=
    submissions_snoc tr (.append bio new) [.use bio]
  have hacc : accepted _ = accepted tr ++ [bio] := accepted_snoc tr (.append bio new) [.use bio]
  have hcomp : completed _ = completed tr :=
    (completed_snoc tr (.append bio new) [.use bio]).trans (List.append_nil _)
  constructor
  · rw [hledger, hsub, hacc, hcomp]
    intro other hother
    obtain ⟨hin, hor⟩ := h.given other hother
    refine ⟨List.mem_append_left _ hin, hor.imp id fun hn hmem => ?_⟩
    rcases List.mem_append.mp hmem with hold | hone
    · exact hn hold
    · obtain rfl := List.mem_singleton.mp hone
      exact hnew hin
  · rw [hacc]
    intro other hother
    rw [List.mem_append, List.mem_singleton]
    rcases hother with ⟨a, ha⟩ | hposted | hwoke | hfin
    · by_cases hanew : a = new
      · right
        subst hanew
        simpa [Threads.next, World.bioAt, eq_comm] using ha
      · left
        apply h.held other
        left
        exact ⟨a, by simpa [Threads.next, World.bioAt, hanew] using ha⟩
    · rcases List.mem_append.mp hposted with hold | hone
      · exact Or.inl (h.held other (Or.inr (Or.inl hold)))
      · exact Or.inr (List.mem_singleton.mp hone)
    · exact Or.inl (h.held other (Or.inr (Or.inr (Or.inl hwoke))))
    · exact Or.inl (h.held other (Or.inr (Or.inr (Or.inr hfin))))
  · rw [hledger, hcomp]; exact h.late
  · rw [hledger, hcomp]; exact h.back
  · rw [hcomp]; exact h.ending
  · rw [hledger, hcomp]; exact h.done

/-- The giving back of a completion, when no other is under way. -/
theorem Owned.giveBack {tr : List (Step × List Touch)} {t : Threads} (h : Owned tr t)
    (byte : UInt8) {entry : BioListEntry} (hfree : t.finishing = none)
    (hent : t.world.entries t.world.dev.dataCurrentBio = some entry) :
    Owned (tr ++ [(Step.endio byte, [Touch.giveBack entry.bio])]) (t.next (.endio byte)).1 := by
  have hledger := ledger_snoc tr (.endio byte) [.giveBack entry.bio]
  have hgiven : (ledger _).given = entry.bio :: (ledger tr).given := congrArg Ledger.given hledger
  have hlate : ∀ other,
      other ∈ (ledger (tr ++ [(Step.endio byte, [Touch.giveBack entry.bio])])).late ↔
      other ∈ (ledger tr).late ∨ (other = entry.bio ∧ entry.bio ∈ (ledger tr).given) := by
    intro other
    rw [hledger]
    exact mem_late_record _ (.giveBack entry.bio) other
  have hsub : submissions _ = submissions tr :=
    (submissions_snoc tr (.endio byte) [.giveBack entry.bio]).trans (List.append_nil _)
  have hacc : accepted _ = accepted tr :=
    (accepted_snoc tr (.endio byte) [.giveBack entry.bio]).trans (List.append_nil _)
  have hcomp : completed _ = completed tr ++ [entry.bio] :=
    completed_snoc tr (.endio byte) [.giveBack entry.bio]
  have hown : entry.bio ∈ accepted tr := h.held _ (holds_entry hent)
  have hnext : (t.next (.endio byte)).1.finishing =
      some (t.world.dev.dataCurrentBio, entry, .ended) := by
    simp only [Threads.next, hent]
  have hworld : (t.next (.endio byte)).1.world.entries = t.world.entries ∧
      (t.next (.endio byte)).1.posted = t.posted ∧ (t.next (.endio byte)).1.woke = t.woke := by
    simp only [Threads.next, hent, and_self, and_true]
    rfl
  constructor
  · rw [hgiven, hsub, hacc, hcomp]
    intro other hother
    rcases List.mem_cons.mp hother with rfl | hold
    · exact ⟨accepted_sub tr hown, Or.inl (by simp)⟩
    · obtain ⟨hin, hor⟩ := h.given other hold
      exact ⟨hin, hor.imp (List.mem_append_left _) id⟩
  · rw [hacc]
    intro other hother
    obtain ⟨he, hp, hw⟩ := hworld
    simp only [Threads.Holds, World.bioAt, he, hp, hw, hnext] at hother
    rcases hother with hlive | hposted | hwoke | ⟨a, entry', stage, heq, rfl⟩
    · exact h.held other (Or.inl hlive)
    · exact h.held other (Or.inr (Or.inl hposted))
    · exact h.held other (Or.inr (Or.inr (Or.inl hwoke)))
    · cases heq
      exact hown
  · rw [hcomp]
    intro other hother
    rw [List.mem_append, List.mem_singleton]
    exact ((hlate other).mp hother).imp (h.late other) And.left
  · rw [hgiven, hcomp]
    intro other hother
    rcases List.mem_append.mp hother with hold | hone
    · exact List.mem_cons_of_mem _ (h.back other hold)
    · rw [List.mem_singleton.mp hone]
      exact List.mem_cons_self
  · rw [hcomp]
    rintro other ⟨a, entry', heq, rfl⟩
    rw [hnext] at heq
    cases heq
    simp
  · rw [hcomp]
    intro other hother
    rcases List.mem_append.mp hother with hold | hone
    · left
      rw [hlate]
      left
      rcases h.done other hold with hl | ⟨a, entry', heq, -⟩
      · exact hl
      · rw [hfree] at heq
        cases heq
    · right
      exact ⟨_, _, hnext, (List.mem_singleton.mp hone).symm⟩

/-- The accounting of a completion: it looks at the bio that was ended. -/
theorem Owned.iostat {tr : List (Step × List Touch)} {t : Threads} (h : Owned tr t) {a : Addr}
    {entry : BioListEntry} (hfin : t.finishing = some (a, entry, .ended)) :
    Owned (tr ++ [(.iostat, (t.next .iostat).2)]) (t.next .iostat).1 := by
  simp only [Threads.next, hfin]
  refine h.look rfl (Or.inr (Or.inr (Or.inr ⟨a, entry, .ended, hfin, rfl⟩))) ?_ ?_ ?_
  · rintro other (hlive | hposted | hwoke | ⟨b, entry', stage', heq, rfl⟩)
    · exact Or.inl hlive
    · exact Or.inr (Or.inl hposted)
    · exact Or.inr (Or.inr (Or.inl hwoke))
    · cases heq
      exact Or.inr (Or.inr (Or.inr ⟨a, entry, .ended, hfin, rfl⟩))
  · rintro other ⟨b, entry', heq, rfl⟩
    cases heq
  · rintro other ⟨b, entry', heq, rfl⟩
    rw [hfin] at heq
    cases heq
    exact Or.inr rfl

theorem Owned.unlink {tr : List (Step × List Touch)} {t : Threads} (h : Owned tr t) {a : Addr}
    {entry : BioListEntry} (hfin : t.finishing = some (a, entry, .counted)) :
    Owned (tr ++ [(.unlink, (t.next .unlink).2)]) (t.next .unlink).1 := by
  simp only [Threads.next, hfin]
  apply h.quiet rfl
  · rintro other (hlive | hposted | hwoke | ⟨b, entry', stage', heq, rfl⟩)
    · exact Or.inl hlive
    · exact Or.inr (Or.inl hposted)
    · exact Or.inr (Or.inr (Or.inl hwoke))
    · cases heq
      exact Or.inr (Or.inr (Or.inr ⟨a, entry, _, hfin, rfl⟩))
  · intro other
    simp [Threads.Ending, hfin]

/-- The entry is freed; the other ones are held as before. -/
theorem Owned.free {tr : List (Step × List Touch)} {t : Threads} (h : Owned tr t) {a : Addr}
    {entry : BioListEntry} (hfin : t.finishing = some (a, entry, .unlinked)) :
    Owned (tr ++ [(.free, (t.next .free).2)]) (t.next .free).1 := by
  simp only [Threads.next, hfin]
  apply h.quiet rfl
  · rintro other (⟨b, hb⟩ | hposted | hwoke | ⟨b, entry', stage', heq, rfl⟩)
    · left
      refine ⟨b, ?_⟩
      by_cases hba : b = a
      · subst hba
        simp [World.bioAt] at hb
      · simpa [World.bioAt, hba] using hb
    · exact Or.inr (Or.inl hposted)
    · exact Or.inr (Or.inr (Or.inl hwoke))
    · cases heq
  · intro other
    simp [Threads.Ending, hfin]

/-- **Every step keeps it.** -/
theorem Owned.next {tr : List (Step × List Touch)} {t : Threads} (h : Owned tr t) (e : Step)
    (hp : submitOnce tr e) (he : t.Enabled e) :
    Owned (tr ++ [(e, (t.next e).2)]) (t.next e).1 := by
  cases e with
  | refuse bio => exact h.refuse bio hp
  | append bio new => exact h.append bio new hp
  | wakeUp bio =>
    apply h.quiet rfl
    · rintro other (hlive | hposted | hwoke | hfin)
      · exact Or.inl hlive
      · exact Or.inr (Or.inl (List.mem_of_mem_erase hposted))
      · rcases List.mem_append.mp hwoke with hold | hone
        · exact Or.inr (Or.inr (Or.inl hold))
        · rw [List.mem_singleton.mp hone]
          exact Or.inr (Or.inl he)
      · exact Or.inr (Or.inr (Or.inr hfin))
    · exact fun _ => Iff.rfl
  | account bio =>
    apply h.look rfl (Or.inr (Or.inr (Or.inl he)))
    · rintro other (hlive | hposted | hwoke | hfin)
      · exact Or.inl hlive
      · exact Or.inr (Or.inl hposted)
      · exact Or.inr (Or.inr (Or.inl (List.mem_of_mem_erase hwoke)))
      · exact Or.inr (Or.inr (Or.inr hfin))
    · exact fun _ => id
    · exact fun _ => Or.inl
  | enter r => exact h.same rfl rfl rfl rfl rfl
  | prepareToWait r => exact h.same rfl rfl rfl rfl rfl
  | check r =>
    simp only [Threads.next]
    cases hl : t.world.dev.incomingBioList with
    | nil => exact h.same rfl rfl rfl rfl rfl
    | cons a rest =>
      simp only
      cases hent : t.world.entries a with
      | none => exact h.same rfl rfl rfl rfl rfl
      | some entry =>
        exact h.look rfl (holds_entry hent) (fun _ => id) (fun _ => id) (fun _ => Or.inl)
  | schedule r => exact h.same rfl rfl rfl rfl rfl
  | signal r => exact h.same rfl rfl rfl rfl rfl
  | finishWait r signal => exact h.same rfl rfl rfl rfl rfl
  | chOpen => exact h.same rfl rfl rfl rfl rfl
  | chRelease => exact h.same rfl rfl rfl rfl rfl
  | setCurrent id => exact h.same rfl rfl rfl rfl rfl
  | transfer =>
    simp only [Threads.next]
    cases hent : t.world.entries t.world.dev.dataCurrentBio with
    | none => exact h.same rfl rfl rfl rfl rfl
    | some entry =>
      exact h.look rfl (holds_entry hent) (fun _ => id) (fun _ => id) (fun _ => Or.inl)
  | endio byte =>
    obtain ⟨hfree, hlive⟩ := he
    obtain ⟨entry, hent⟩ := Option.isSome_iff_exists.mp hlive
    have hans : (t.next (.endio byte)).2 = [.giveBack entry.bio] := by
      simp only [Threads.next, hent]
    rw [hans]
    exact h.giveBack byte (Option.isNone_iff_eq_none.mp hfree) hent
  | iostat =>
    obtain ⟨a, entry, hfin⟩ := Threads.at_some he
    exact h.iostat hfin
  | unlink =>
    obtain ⟨a, entry, hfin⟩ := Threads.at_some he
    exact h.unlink hfin
  | free =>
    obtain ⟨a, entry, hfin⟩ := Threads.at_some he
    exact h.free hfin

theorem run_owned {blockSize size : Nat} {mem : Mem} {tr : List (Step × List Touch)} {t : Threads}
    (h : Run threads submitOnce (Threads.start (World.init blockSize size mem)) tr t) :
    Owned tr t := by
  refine h.invariant Owned ?_ ?_
  · refine ⟨by simp [ledger], ?_, by simp [ledger], by simp [completed], ?_, by simp [completed]⟩
    · rintro bio (⟨a, ha⟩ | hposted | hwoke | ⟨a, entry, stage, heq, -⟩)
      · cases ha
      · cases hposted
      · cases hwoke
      · cases heq
    · rintro bio ⟨a, entry, heq, -⟩
      cases heq
  · intro tr t e ht hp he
    exact ht.next e hp he

/-- What a submitter relies on: a bio it got back is its own. -/
def NeverTouched (world : World) : Prop :=
  ∀ tr t, Run threads submitOnce (Threads.start world) tr t → (ledger tr).late = []

/-- **Touches after the bio was given back.**  In every run, a bio no completion gave back is not
touched after it was given back; so where there is no completion there is no such touch.  A bio that
a completion gave back is, once the completion has done its accounting. -/
theorem late_iff_completed {blockSize size : Nat} {mem : Mem} {tr : List (Step × List Touch)}
    {t : Threads}
    (h : Run threads submitOnce (Threads.start (World.init blockSize size mem)) tr t) :
    ((∀ e ∈ tr, ∀ byte, e.1 ≠ .endio byte) → (ledger tr).late = []) ∧
    (∀ bio, bio ∉ completed tr → bio ∉ (ledger tr).late) ∧
    (t.finishing = none → ∀ bio, bio ∈ (ledger tr).late ↔ bio ∈ completed tr) := by
  have hown := run_owned h
  refine ⟨fun hnone => ?_, fun bio hbio hlate => hbio (hown.late bio hlate), fun hfin bio => ?_⟩
  · have hcomp : completed tr = [] := by
      unfold completed
      rw [List.filterMap_eq_nil_iff]
      intro e he
      split
      · next byte bio => exact absurd rfl (hnone _ he byte)
      · rfl
    apply List.eq_nil_iff_forall_not_mem.mpr
    intro bio hbio
    have := hown.late bio hbio
    rw [hcomp] at this
    cases this
  · refine ⟨hown.late bio, fun hbio => ?_⟩
    rcases hown.done bio hbio with hlate | ⟨a, entry, heq, -⟩
    · exact hlate
    · rw [hfin] at heq
      cases heq

end

section
attribute [local instance] linux32

/-- A bio is submitted, delivered and completed; its completion accounts for it after giving it back,
and so does its submission, which comes last. -/
def raceSteps : List Step :=
  [.append sampleWrite 16, .wakeUp sampleWrite, .enter 0, .prepareToWait 0, .check 0, .setCurrent 16,
    .endio 0, .iostat, .unlink, .free, .account sampleWrite]

theorem touched_after_endio : ¬ NeverTouched (World.init 512 1024 fun _ => 0) := by
  intro h
  have hrun := @path_exec _ _ _ threads submitOnce []
    (Threads.start (World.init 512 1024 fun _ => 0)) raceSteps (by decide)
  exact absurd (h _ _ hrun) (by decide)

theorem late_iff_completed_sample :
    sampleWrite ∈ (ledger (traceOf threads (Threads.start (World.init 512 1024 fun _ => 0))
      raceSteps)).late := by
  have hrun := @path_exec _ _ _ threads submitOnce []
    (Threads.start (World.init 512 1024 fun _ => 0)) raceSteps (by decide)
  exact ((late_iff_completed hrun).2.2 rfl sampleWrite).mpr (by decide)

end

end BDTun
