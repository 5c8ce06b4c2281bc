import BDTun.Lib.Spool
import BDTun.Handle

/-!
# Every bio is in one place, and delivery is in order

`World.spool` reads a device as a spool of bios: incoming is what waits, pending
is what is held, ended is what is done.  With one tunnel file at a time and a
client that acts only on ids it was given (`serialClient`), every call is one
action of the spool or none (`Spooled.next`), so the spool's laws are the
device's: `bios_conserved` and `session_order`.
-/

namespace BDTun

open Memory Machine

section
variable [Kernel]

/-! ## The bios of a list of entries -/

theorem bioAt_of_entry {s : World} {a : Addr} {entry : BioListEntry}
    (h : s.entries a = some entry) : s.bioAt a = some entry.bio := by
  simp [World.bioAt, h]

/-- Only the entries of the list count. -/
theorem biosOf_congr {s t : World} {l : List Addr} (h : ∀ a ∈ l, t.entries a = s.entries a) :
    t.biosOf l = s.biosOf l :=
  List.filterMap_congr fun a ha => by rw [World.bioAt, World.bioAt, h a ha]

theorem biosOf_append (s : World) (l₁ l₂ : List Addr) :
    s.biosOf (l₁ ++ l₂) = s.biosOf l₁ ++ s.biosOf l₂ :=
  List.filterMap_append

theorem biosOf_perm (s : World) {l₁ l₂ : List Addr} (h : l₁.Perm l₂) :
    (s.biosOf l₁).Perm (s.biosOf l₂) :=
  h.filterMap _

theorem biosOf_cons {s : World} {a : Addr} {entry : BioListEntry} (h : s.entries a = some entry)
    (l : List Addr) : s.biosOf (a :: l) = entry.bio :: s.biosOf l :=
  List.filterMap_cons_some (bioAt_of_entry h)

theorem mem_biosOf {s : World} {l : List Addr} {a : Addr} {entry : BioListEntry} (ha : a ∈ l)
    (h : s.entries a = some entry) : entry.bio ∈ s.biosOf l :=
  List.mem_filterMap.mpr ⟨a, ha, bioAt_of_entry h⟩

/-- Taking an entry off a list takes its bio off. -/
theorem biosOf_erase {s : World} {l : List Addr} {a : Addr} {entry : BioListEntry}
    (hbios : (s.biosOf l).Nodup) (ha : a ∈ l) (h : s.entries a = some entry) :
    s.biosOf (l.erase a) = (s.biosOf l).erase entry.bio := by
  induction l with
  | nil => cases ha
  | cons x l ih =>
    by_cases hx : x = a
    · subst hx
      rw [List.erase_cons_head, biosOf_cons h, List.erase_cons_head]
    · have hal : a ∈ l := by
        rcases List.mem_cons.mp ha with rfl | hal
        · exact absurd rfl hx
        · exact hal
      rw [List.erase_cons_tail (by simpa using hx)]
      cases hent : s.entries x with
      | none =>
        have hskip : s.bioAt x = none := by simp [World.bioAt, hent]
        have hcons : ∀ l, s.biosOf (x :: l) = s.biosOf l :=
          fun l => List.filterMap_cons_none hskip
        rw [hcons] at hbios ⊢
        rw [hcons]
        exact ih hbios hal
      | some ex =>
        rw [biosOf_cons hent] at hbios ⊢
        rw [biosOf_cons hent]
        rw [List.nodup_cons] at hbios
        have hne : ex.bio ≠ entry.bio := fun heq => hbios.1 (heq ▸ mem_biosOf hal h)
        rw [List.erase_cons_tail (by simpa using hne), ih hbios.2 hal]

/-! ## A device is a spool -/

/-- A device as a spool of bios. -/
def World.spool (s : World) : Spool Bio where
  waiting := s.biosOf s.dev.incomingBioList
  held := s.biosOf s.dev.pendingBioList
  done := s.endedBios

theorem spool_refused (s : World) (bio : Bio) (error : Int) :
    (s.bioEndio bio error).spool = (s.spool.step (.discard bio)).1 := by
  simp only [World.spool, World.endedBios, World.bioEndio_ended, List.map_append, Spool.step]
  rfl

theorem spool_queued {s : World} (hwf : s.Wf) (bio : Bio) {new : Addr} (rw : Nat)
    (hnew : s.entries new = none) :
    ((s.publish bio new).account bio rw).spool = (s.spool.step (.put bio)).1 := by
  have hne : ∀ a ∈ s.dev.incomingBioList ++ s.dev.pendingBioList, a ≠ new := by
    rintro a ha rfl
    rw [← hwf.live, hnew] at ha
    cases ha
  have hold : ∀ l, (∀ a ∈ l, a ≠ new) →
      ((s.publish bio new).account bio rw).biosOf l = s.biosOf l :=
    fun l hl => biosOf_congr fun a ha => Function.update_of_ne (hl a ha) _ _
  have hlast : ((s.publish bio new).account bio rw).biosOf [new] = [bio] := by
    simp [World.biosOf, World.bioAt]
  simp only [World.spool, Spool.step, World.account_dev_incomingBioList,
    World.publish_dev_incomingBioList, World.account_dev_pendingBioList,
    World.publish_dev_pendingBioList]
  rw [biosOf_append, hlast, hold _ fun a ha => hne a (List.mem_append_left _ ha),
    hold _ fun a ha => hne a (List.mem_append_right _ ha)]
  rfl

theorem spool_closed (s : World) :
    ({ s with dev := bdtunchRelease s.dev } : World).spool = (s.spool.step .giveBack).1 := by
  have hwaiting : ({ s with dev := bdtunchRelease s.dev } : World).biosOf
      (s.dev.incomingBioList ++ s.dev.pendingBioList) =
      s.biosOf s.dev.incomingBioList ++ s.biosOf s.dev.pendingBioList := biosOf_append s _ _
  simp only [World.spool, bdtunchRelease, Bdtun.spliceBack, Spool.step] at hwaiting ⊢
  rw [hwaiting]
  rfl

theorem spool_delivered {s : World} {a : Addr} {rest : List Addr} {entry : BioListEntry}
    (hl : s.dev.incomingBioList = a :: rest) (he : s.entries a = some entry) :
    s.spool.step .take = ((s.deliver a rest entry).spool, some entry.bio) := by
  have hwaiting : s.spool.waiting = entry.bio :: s.biosOf rest := by
    rw [World.spool, hl, biosOf_cons he]
  have hheld : (s.deliver a rest entry).spool.held = s.spool.held ++ [entry.bio] := by
    show s.biosOf (s.dev.pendingBioList ++ [a]) = _
    rw [biosOf_append, biosOf_cons he]
    rfl
  simp only [Spool.step, hwaiting]
  rw [← hheld]
  rfl

theorem spool_finished {s : World} (hwf : s.Wf) {a : Addr} {entry : BioListEntry} (error : Int)
    (ha : a ∈ s.dev.pendingBioList) (he : s.entries a = some entry)
    (hbios : s.spool.held.Nodup) :
    (s.finish a entry error).spool = (s.spool.step (.finish entry.bio)).1 := by
  have hnodup := List.nodup_append'.mp hwf.nodup
  have hnotin := hwf.not_incoming ha
  have hold : ∀ l, a ∉ l → (s.finish a entry error).biosOf l = s.biosOf l := by
    refine fun l hl => biosOf_congr fun b hb => ?_
    exact Function.update_of_ne (fun hba : b = a => hl (hba ▸ hb)) _ _
  have hwaiting : (s.finish a entry error).spool.waiting = s.spool.waiting := by
    show (s.finish a entry error).biosOf (s.dev.incomingBioList.erase a) = _
    rw [List.erase_of_not_mem hnotin, hold _ hnotin]
    rfl
  have hheld : (s.finish a entry error).spool.held = s.spool.held.erase entry.bio := by
    show (s.finish a entry error).biosOf (s.dev.pendingBioList.erase a) = _
    rw [hold _ hnodup.2.1.not_mem_erase, biosOf_erase hbios ha he]
    rfl
  have hdone : (s.finish a entry error).spool.done = s.spool.done ++ [entry.bio] := by
    simp [World.spool, World.finish, World.endedBios]
  simp only [Spool.step]
  rw [← hwaiting, ← hheld, ← hdone]

/-! ## The serial client -/

/-- One tunnel file at a time, and a client that sets and acts on only what it was given in this
session and has not completed. -/
def serialClient : Policy Call Ret := fun tr c =>
  vfs tr c ∧
  match c with
  | .chOpen _ => (hist tr).files = []
  | .read _ count _ _ => count = bdtunTxreqHeaderSize ∨ (hist tr).lastSet ∈ (hist tr).owed
  | .write _ buf _ =>
    if buf.length = sizeofLong then wordOf buf ∈ (hist tr).owed
    else (hist tr).lastSet ∈ (hist tr).owed
  | .mmap _ _ _ => (hist tr).lastSet ∈ (hist tr).owed
  | _ => True

instance (tr : List (Call × Ret)) : (c : Call) → Decidable (serialClient tr c)
  | .submit _ _ => inferInstanceAs (Decidable (_ ∧ _))
  | .chOpen _ => inferInstanceAs (Decidable (_ ∧ _))
  | .chRelease _ => inferInstanceAs (Decidable (_ ∧ _))
  | .read _ _ _ _ => inferInstanceAs (Decidable (_ ∧ _))
  | .write _ _ _ => inferInstanceAs (Decidable (_ ∧ _))
  | .mmap _ _ _ => inferInstanceAs (Decidable (_ ∧ _))
  | .tick => inferInstanceAs (Decidable (_ ∧ _))

/-- What the refinement needs of the clients: each bio is submitted once, and only what is pending
is completed. -/
def heldClient : Policy Call Ret := fun tr c =>
  match c with
  | .submit bio _ => bio ∉ (hist tr).submitted
  | .write _ buf _ => buf.length = 1 → (hist tr).lastSet ∈ (hist tr).owed
  | _ => True

theorem heldClient_of_serial (tr : List (Call × Ret)) (c : Call) (h : serialClient tr c) :
    heldClient tr c := by
  obtain ⟨hv, hc⟩ := h
  cases c with
  | submit bio new => exact hv
  | write f buf valid =>
    intro hone
    have hlen : buf.length ≠ sizeofLong := by rw [hone]; exact sizeofLong_ne_one.symm
    simp only [if_neg hlen] at hc
    exact hc
  | _ => trivial

/-- The bios of a history that got a list entry, in order. -/
def queued (tr : List (Call × Ret)) : List Bio :=
  tr.filterMap fun e => match e.1 with
    | .submit bio (some _) => some bio
    | _ => none

/-- All bios of a history. -/
def handed (tr : List (Call × Ret)) : List Bio :=
  tr.filterMap fun e => match e.1 with
    | .submit bio _ => some bio
    | _ => none

def isClose : Call × Ret → Bool
  | (.chRelease _, _) => true
  | _ => false

def isGiveBack : Spool.Act Bio × Option Bio → Bool
  | (.giveBack, _) => true
  | _ => false

theorem queued_append (tr more : List (Call × Ret)) : queued (tr ++ more) = queued tr ++ queued more :=
  List.filterMap_append

/-- A run of the device and the run of the spool that it is. -/
structure Spooled (tr : List (Call × Ret)) (s : World) (acts : List (Spool.Act Bio × Option Bio))
    (t : Spool Bio) : Prop where
  tracks : Tracks (hist tr) s
  state : t = s.spool
  run : Run (Spool.machine Bio) Spool.anyone Spool.empty acts t
  given : Spool.given acts = (hist tr).submitted
  puts : Spool.puts acts = queued tr
  taken : Spool.taken acts = s.delivered
  backs : acts.countP isGiveBack = tr.countP isClose

variable {tr : List (Call × Ret)} {s s' : World} {acts : List (Spool.Act Bio × Option Bio)}
  {t : Spool Bio}

/-- A call that is one action of the spool. -/
theorem Spooled.act (h : Spooled tr s acts t) (a : Spool.Act Bio) (e : Call × Ret)
    (ha : Spool.Enabled t a) (htracks : Tracks (hist (tr ++ [e])) s')
    (hs : (t.step a).1 = s'.spool)
    (hg : (hist (tr ++ [e])).submitted = (hist tr).submitted ++ Spool.given [(a, (t.step a).2)])
    (hp : queued [e] = Spool.puts [(a, (t.step a).2)])
    (ht : s'.delivered = s.delivered ++ Spool.taken [(a, (t.step a).2)])
    (hb : [(a, (t.step a).2)].countP isGiveBack = [e].countP isClose) :
    ∃ more t', Path (Spool.machine Bio) Spool.anyone acts t more t' ∧
      Spooled (tr ++ [e]) s' (acts ++ more) t' := by
  have hstep : Path (Spool.machine Bio) Spool.anyone acts t [(a, (t.step a).2)] (t.step a).1 :=
    .single a trivial ha
  refine ⟨_, _, hstep, htracks, hs, h.run.trans hstep, ?_, ?_, ?_, ?_⟩
  · rw [Spool.given_append, h.given, hg]
  · rw [Spool.puts_append, h.puts, queued_append, hp]
  · rw [Spool.taken_append, h.taken, ht]
  · rw [List.countP_append, List.countP_append, h.backs, hb]

/-- A call that is none. -/
theorem Spooled.stutter (h : Spooled tr s acts t) (e : Call × Ret)
    (htracks : Tracks (hist (tr ++ [e])) s') (hs : s'.spool = s.spool)
    (hg : (hist (tr ++ [e])).submitted = (hist tr).submitted) (hp : queued [e] = [])
    (ht : s'.delivered = s.delivered) (hb : isClose e = false) :
    ∃ more t', Path (Spool.machine Bio) Spool.anyone acts t more t' ∧
      Spooled (tr ++ [e]) s' (acts ++ more) t' := by
  refine ⟨[], t, .refl, htracks, ?_, ?_, ?_, ?_, ?_, ?_⟩
  · rw [hs, h.state]
  · simpa using h.run
  · rw [List.append_nil, h.given, hg]
  · rw [List.append_nil, h.puts, queued_append, hp, List.append_nil]
  · rw [List.append_nil, h.taken, ht]
  · rw [List.append_nil, h.backs]; simp [hb]

/-- The id a serial client acts on is pending. -/
theorem serial_target (htracks : Tracks (hist tr) s) {c : Call} (hp : serialClient tr c) {a : Addr}
    (ht : c.target s = some a) : a ∈ s.dev.pendingBioList := by
  obtain ⟨hcur, -⟩ := next_of_target ht
  rw [hcur, htracks.lastSet, htracks.owed]
  obtain ⟨-, hp⟩ := hp
  cases c with
  | read f count valid signal =>
    simp only [Call.target] at ht
    split at ht
    · cases ht
    · next hcount => exact hp.resolve_left hcount
  | write f buf valid =>
    simp only [Call.target] at ht
    split at ht
    · cases ht
    · next hlen =>
      simp only [if_neg hlen] at hp
      exact hp
  | mmap f vma fail => exact hp
  | submit bio new => cases ht
  | chOpen f => cases ht
  | chRelease f => cases ht
  | tick => cases ht

/-- **Refinement.**  Every call is one action of the spool or none. -/
theorem Spooled.next (h : Spooled tr s acts t) (c : Call) (hp : heldClient tr c)
    (hk : KmallocOk s c) (hr : (tunnelNext s c).2 ≠ .oops) :
    ∃ more t', Path (Spool.machine Bio) Spool.anyone acts t more t' ∧
      Spooled (tr ++ [(c, (tunnelNext s c).2)]) (tunnelNext s c).1 (acts ++ more) t' := by
  obtain ⟨hperm, hnodup⟩ := Spool.Run.conserved h.run
  have hstate := h.state
  have htracks : Tracks (hist (tr ++ [(c, (tunnelNext s c).2)])) (tunnelNext s c).1 := by
    rw [hist_snoc]; exact h.tracks.next c hk hr
  have hfresh : ∀ bio, bio ∉ (hist tr).submitted → bio ∉ t.all := by
    intro bio hbio
    rw [hperm.mem_iff, h.given]
    exact hbio
  have heff := effect_of_next s c hr
  generalize tunnelNext s c = res at heff htracks
  cases heff with
  | refused bio =>
    refine h.act (.discard bio) _ (hfresh bio hp) htracks ?_ ?_ ?_ ?_ ?_
    · rw [hstate, spool_refused]
    · rw [hist_snoc]; rfl
    · rfl
    · simp [Spool.step, Spool.taken]
    · rfl
  | queued bio new =>
    refine h.act (.put bio) _ (hfresh bio hp) htracks ?_ ?_ ?_ ?_ ?_
    · rw [hstate, spool_queued h.tracks.wf bio _ hk.1]
    · rw [hist_snoc]; rfl
    · rfl
    · simp [Spool.step, Spool.taken]
    · rfl
  | opened f _ =>
    exact h.stutter _ htracks rfl (by rw [hist_snoc]; rfl) rfl rfl rfl
  | closed f =>
    refine h.act .giveBack _ trivial htracks ?_ ?_ ?_ ?_ ?_
    · rw [hstate, spool_closed]
    · rw [hist_snoc]; simp [Hist.record, Spool.given]
    · rfl
    · simp [Spool.step, Spool.taken]
    · rfl
  | delivered f valid signal a rest entry hl he =>
    have hstep := spool_delivered hl he
    rw [← hstate] at hstep
    refine h.act .take _ trivial htracks ?_ ?_ ?_ ?_ ?_
    · rw [hstep]
    · rw [hist_snoc]; simp [Hist.record, Spool.given]
    · rfl
    · rw [hstep]; rfl
    · rfl
  | set f buf valid hlen =>
    exact h.stutter _ htracks rfl (by rw [hist_snoc]; simp [Hist.record, hlen]) rfl rfl rfl
  | completed f byte valid entry he =>
    have hmem : s.dev.dataCurrentBio ∈ s.dev.pendingBioList := by
      rw [h.tracks.lastSet, h.tracks.owed]
      exact hp rfl
    have hheld : s.spool.held.Nodup := by
      rw [← hstate]
      exact (List.nodup_append'.mp (List.nodup_append'.mp hnodup).2.1).1
    refine h.act (.finish entry.bio) _ ?_ htracks ?_ ?_ ?_ ?_ ?_
    · rw [hstate]; exact mem_biosOf hmem he
    · rw [hstate, spool_finished h.tracks.wf _ hmem he hheld]
    · rw [hist_snoc]; simp [Hist.record, Spool.given, sizeofLong_ne_one.symm]
    · rfl
    · simp [Spool.step, Spool.taken, World.finish]
    · rfl
  | moved f buf valid mem code hlen hone =>
    exact h.stutter _ htracks rfl (by rw [hist_snoc]; simp [Hist.record, hlen, hone]) rfl rfl rfl
  | quiet c r hq =>
    have hnone : queued [(c, r)] = [] ∧ isClose (c, r) = false := by
      have hsub := fun hi => congrArg Hist.submitted (hq hi)
      have hfiles := fun hi => congrArg Hist.files (hq hi)
      cases c with
      | submit bio new => simpa [Hist.record] using hsub ⟨[], [], 0, []⟩
      | chRelease f => simpa [Hist.record] using hfiles ⟨[f], [], 0, []⟩
      | chOpen f => exact ⟨rfl, rfl⟩
      | read f count valid signal => exact ⟨rfl, rfl⟩
      | write f buf valid => exact ⟨rfl, rfl⟩
      | mmap f vma fail => exact ⟨rfl, rfl⟩
      | tick => exact ⟨rfl, rfl⟩
    exact h.stutter _ htracks rfl (by rw [hist_snoc, hq]) hnone.1 rfl hnone.2
  | ticked j => exact h.stutter _ htracks rfl (by rw [hist_snoc]; rfl) rfl rfl rfl

/-- A run of the device is a run of the spool, and so is what follows it. -/
theorem Spooled.path {more : List (Call × Ret)} (h : Spooled tr s acts t)
    (hpath : Path tunnel heldClient tr s more s') :
    ∃ acts' t', Path (Spool.machine Bio) Spool.anyone acts t acts' t' ∧
      Spooled (tr ++ more) s' (acts ++ acts') t' := by
  refine Path.simulate Spooled h ?_ hpath
  intro tr s acts t c hR hp he
  exact hR.next c hp he.1 he.2

theorem run_spooled {blockSize size : Nat} {mem : Mem}
    (h : Run tunnel heldClient (World.init blockSize size mem) tr s) :
    ∃ acts, Spooled tr s acts s.spool := by
  have hinit : Spooled [] (World.init blockSize size mem) [] Spool.empty :=
    ⟨⟨World.Wf.init _ _ _, rfl, rfl⟩, rfl, .refl, rfl, rfl, rfl, rfl⟩
  obtain ⟨acts, t, -, hR⟩ := hinit.path h
  obtain rfl := hR.state
  exact ⟨acts, hR⟩

theorem submitted_hist (tr : List (Call × Ret)) : (hist tr).submitted = handed tr := by
  induction tr using List.reverseRecOn with
  | nil => rfl
  | append_singleton tr e ih =>
    have hrec : ((hist tr).record e).submitted = (hist tr).submitted ++ handed [e] := by
      unfold Hist.record handed
      split <;> try simp
      · split <;> simp
      · split
        · simp
        · split <;> simp
      · next hsub _ _ _ _ =>
        obtain ⟨c, r⟩ := e
        cases c with
        | submit bio new => exact absurd rfl (hsub bio new r)
        | _ => simp
    rw [hist_snoc, hrec, ih, handed, handed, handed, List.filterMap_append]

/-! ## The laws of the device -/

/-- The bios delivered in a session are a prefix of what was incoming at its start and what was
submitted since, refused or not. -/
def DeliveredInOrder (blockSize size : Nat) (mem : Mem) : Prop :=
  ∀ tr₁ s₁ f r more s, Run tunnel serialClient (World.init blockSize size mem) tr₁ s₁ →
    Run tunnel serialClient (World.init blockSize size mem) (tr₁ ++ (.chOpen f, r) :: more) s →
    (∀ e ∈ more, isClose e = false) →
    ∃ given, s.delivered = s₁.delivered ++ given ∧
      given <+: s₁.biosOf s₁.dev.incomingBioList ++ handed more

/-- Delivery in one session: what was delivered, then what still waits, is what waited at the start,
then the bios that got a list entry since. -/
theorem session_order {blockSize size : Nat} {mem : Mem} {tr₁ more : List (Call × Ret)} {s₁ s : World}
    {f : FileId} {r : Ret} (h₁ : Run tunnel serialClient (World.init blockSize size mem) tr₁ s₁)
    (h : Run tunnel serialClient (World.init blockSize size mem) (tr₁ ++ (.chOpen f, r) :: more) s)
    (hmore : ∀ e ∈ more, isClose e = false) :
    ∃ given, s.delivered = s₁.delivered ++ given ∧
      given ++ s.biosOf s.dev.incomingBioList =
        s₁.biosOf s₁.dev.incomingBioList ++ queued more := by
  obtain ⟨acts, hsp⟩ := run_spooled (h₁.weaken heldClient_of_serial)
  obtain ⟨s₁', h₁', hpath⟩ := Path.split h
  obtain rfl := h₁.functional h₁'
  obtain ⟨acts', t, hacts, hsp'⟩ := hsp.path (hpath.weaken heldClient_of_serial)
  obtain rfl := hsp'.state
  have hputs : Spool.puts acts' = queued more := by
    have hall := hsp'.puts
    rw [Spool.puts_append, hsp.puts, queued_append] at hall
    exact List.append_cancel_left hall
  have htaken : s.delivered = s₁.delivered ++ Spool.taken acts' := by
    rw [← hsp'.taken, Spool.taken_append, hsp.taken]
  have hbacks : ∀ a ∈ acts', a.1 ≠ Spool.Act.giveBack := by
    have hall := hsp'.backs
    have hnone : ((Call.chOpen f, r) :: more).countP isClose = 0 := by
      rw [List.countP_eq_zero]
      rintro e he
      rcases List.mem_cons.mp he with rfl | he
      · exact Bool.false_ne_true
      · rw [hmore e he]; exact Bool.false_ne_true
    rw [List.countP_append, List.countP_append, hsp.backs, hnone, Nat.add_zero,
      Nat.add_eq_left, List.countP_eq_zero] at hall
    rintro ⟨a, b⟩ ha rfl
    exact hall _ ha rfl
  refine ⟨Spool.taken acts', htaken, ?_⟩
  rw [← hputs]
  exact Spool.Path.taken_order hacts hbacks

/-- **No bio is lost, duplicated or ended twice, and delivery is in order.**  In every run of a
serial client: each submitted bio is in exactly one of the incoming list, the pending list and the
ended ones, once; no call such a client can make faults; a completion removes the entry it is for and
no other; and what a session delivers is a prefix of what was incoming at its start followed by the
bios submitted since that got a list entry. -/
theorem bios_conserved {blockSize size : Nat} {mem : Mem} {tr : List (Call × Ret)} {s : World}
    (hrun : Run tunnel serialClient (World.init blockSize size mem) tr s) :
    (s.biosOf s.dev.incomingBioList ++ (s.biosOf s.dev.pendingBioList ++ s.endedBios)).Perm
        (handed tr) ∧
    (s.biosOf s.dev.incomingBioList ++ (s.biosOf s.dev.pendingBioList ++ s.endedBios)).Nodup ∧
    (∀ c, serialClient tr c → (tunnelNext s c).2 ≠ .oops) ∧
    (∀ f byte valid, serialClient tr (.write f [byte] valid) →
      let a := (hist tr).lastSet
      let t := (tunnelNext s (.write f [byte] valid)).1
      a ∈ s.dev.pendingBioList ∧ t.dev.incomingBioList = s.dev.incomingBioList ∧
      t.dev.pendingBioList = s.dev.pendingBioList.erase a ∧
      (∀ b, b ≠ a → t.entries b = s.entries b) ∧
      ∃ bio, s.bioAt a = some bio ∧
        t.ended = s.ended ++ [(bio, if byte ≠ 0 then -eio else 0)]) ∧
    (∀ tr₁ s₁ f r more, Run tunnel serialClient (World.init blockSize size mem) tr₁ s₁ →
      tr = tr₁ ++ (.chOpen f, r) :: more → (∀ e ∈ more, isClose e = false) →
      ∃ given, s.delivered = s₁.delivered ++ given ∧
        given <+: s₁.biosOf s₁.dev.incomingBioList ++ queued more) := by
  obtain ⟨acts, hsp⟩ := run_spooled (hrun.weaken heldClient_of_serial)
  obtain ⟨hperm, hnodup⟩ := Spool.Run.conserved hsp.run
  have htracks := hsp.tracks
  refine ⟨?_, hnodup, fun c hc => ?_, fun f byte valid hc => ?_, fun tr₁ s₁ f r more h₁ htr hmore => ?_⟩
  · rw [← submitted_hist, ← hsp.given]
    exact hperm
  · cases ht : c.target s with
    | some a =>
      obtain ⟨entry, he⟩ := htracks.wf.entry_of_pending (serial_target htracks hc ht)
      rw [(next_of_target ht).2]
      exact body_of_live ht he
    | none => exact next_of_no_target htracks.wf ht
  · have ht : (Call.write f [byte] valid).target s = some s.dev.dataCurrentBio :=
      if_neg fun h => sizeofLong_ne_one h.symm
    have hmem := serial_target htracks hc ht
    obtain ⟨entry, he⟩ := htracks.wf.entry_of_pending hmem
    have hnotin := htracks.wf.not_incoming hmem
    have hnext : (tunnelNext s (.write f [byte] valid)).1 =
        s.finish s.dev.dataCurrentBio entry (if byte ≠ 0 then -eio else 0) := by
      simp only [tunnelNext, bdtunchWrite_byte, World.complete, he]
    rw [hnext, ← htracks.lastSet]
    refine ⟨hmem, ?_, rfl, fun b hb => ?_, _, bioAt_of_entry he, rfl⟩
    · exact List.erase_of_not_mem hnotin
    · exact Function.update_of_ne hb _ _
  · subst htr
    obtain ⟨given, hgiven, horder⟩ := session_order h₁ hrun hmore
    exact ⟨given, hgiven, _, horder⟩

end

section
attribute [local instance] linux32

/-- A second write, of the next block. -/
def sampleSecond : Bio := ⟨1, 1, 2, 512, 0, [.sector 8]⟩

/-- A bio that gets no list entry is submitted, and never delivered. -/
theorem refused_bio_skipped : ¬ DeliveredInOrder 512 1024 fun _ => 0 := by
  intro h
  have hrun := @path_exec _ _ _ tunnel serialClient [] (World.init 512 1024 fun _ => 0)
    [.chOpen 0, .submit sampleWrite none, .submit sampleSecond (some 16), .read 0 32 32 false]
    (by decide)
  obtain ⟨given, hgiven, hprefix⟩ := h [] _ 0 (.ret 0 .nothing) _ _ .refl hrun (by decide)
  have hone : given = [sampleSecond] := hgiven.symm
  rw [hone] at hprefix
  exact absurd hprefix (by decide)

/-- Two writes, delivered in order and completed out of order. -/
theorem bios_conserved_sample :
    let calls := [.chOpen 0, .submit sampleWrite (some 16), .submit sampleSecond (some 32),
      .read 0 32 32 false, .read 0 32 32 false, .write 0 (wordBytes 8 32) 8, .write 0 [0] 1]
    let s := exec tunnel (World.init 512 1024 fun _ => 0) calls
    (s.biosOf s.dev.incomingBioList ++ (s.biosOf s.dev.pendingBioList ++ s.endedBios)).Perm
      [sampleWrite, sampleSecond] := by
  have hrun := @path_exec _ _ _ tunnel serialClient [] (World.init 512 1024 fun _ => 0)
    [.chOpen 0, .submit sampleWrite (some 16), .submit sampleSecond (some 32),
      .read 0 32 32 false, .read 0 32 32 false, .write 0 (wordBytes 8 32) 8, .write 0 [0] 1]
    (by decide)
  exact (bios_conserved hrun).1

end

end BDTun
