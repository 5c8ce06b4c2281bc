import BDTun.Conservation
import BDTun.UseCount

/-!
# Removal and the bios of a device

`device` is the tunnel with its other node: opens and closes of the block device,
and removals.  Clients do what they like; bios are submitted while the block
device is open, and its close does not wait for them.

A removal looks at the use count and not at the lists; the loop that would end
what is on them is commented out.

* `Ledgered`: every bio submitted is ended, or on one of the lists, once.
* `removal_keeps_bios`: all along a run a removal would find the lists empty,
  exactly when each close that was the last one did (`LastCloseEmpty`); then a
  removal leaves every bio ended once.
-/

namespace BDTun

open Memory Machine

section
variable [Kernel]

inductive DeviceCall
  | call (c : Call)
  | blkOpen (b : Nat)
  | blkRelease (b : Nat)
  /-- `bdtun_remove_k`; where it answers 0 the device is freed -/
  | remove
deriving DecidableEq

def deviceNext (s : World) : DeviceCall → World × Ret
  | .call c => tunnelNext s c
  | .blkOpen _ => ({ s with dev := (bdtunOpen s.dev).1 }, .ret (bdtunOpen s.dev).2 .nothing)
  | .blkRelease _ => ({ s with dev := bdtunRelease s.dev }, .ret 0 .nothing)
  | .remove => ({ s with dev := (removeCheck s.dev).1 }, .ret (removeCheck s.dev).2 .nothing)

def DeviceOk (s : World) : DeviceCall → Prop
  | .call c => tunnel.enabled s c
  | _ => True

instance (s : World) (c : DeviceCall) : Decidable (DeviceOk s c) := by
  cases c <;> unfold DeviceOk <;> infer_instance

def device : Machine World DeviceCall Ret where
  enabled := DeviceOk
  next := deviceNext

instance (s : World) (c : DeviceCall) : Decidable (device.enabled s c) :=
  inferInstanceAs (Decidable (DeviceOk s c))

/-! ## What the outside has seen -/

structure DeviceHist where
  calls : List (Call × Ret)
  /-- the open files of the block device -/
  blocks : List Nat
  removed : Bool

def DeviceHist.record (h : DeviceHist) : DeviceCall × Ret → DeviceHist
  | (.call c, r) => { h with calls := h.calls ++ [(c, r)] }
  | (.blkOpen b, .ret code _) => if code = 0 then { h with blocks := b :: h.blocks } else h
  | (.blkRelease b, _) => { h with blocks := h.blocks.erase b }
  | (.remove, .ret code _) => if code = 0 then { h with removed := true } else h
  | _ => h

def deviceHist (tr : List (DeviceCall × Ret)) : DeviceHist :=
  tr.foldl DeviceHist.record ⟨[], [], false⟩

@[simp] theorem deviceHist_snoc (tr : List (DeviceCall × Ret)) (e : DeviceCall × Ret) :
    deviceHist (tr ++ [e]) = (deviceHist tr).record e := by
  simp [deviceHist]

/-- The bios submitted in a history. -/
def DeviceHist.submitted (h : DeviceHist) : List Bio := (hist h.calls).submitted

/-- Closes are of open files, a bio is submitted once and while the block device is open, and nothing
comes after the removal. -/
def deviceUsers : Policy DeviceCall Ret := fun tr c =>
  (deviceHist tr).removed = false ∧
  match c with
  | .call c =>
    vfs (deviceHist tr).calls c ∧
      match c with
      | .submit _ _ => (deviceHist tr).blocks ≠ []
      | _ => True
  | .blkOpen b => b ∉ (deviceHist tr).blocks
  | .blkRelease b => b ∈ (deviceHist tr).blocks
  | .remove => True

instance (tr : List (DeviceCall × Ret)) (c : DeviceCall) : Decidable (deviceUsers tr c) :=
  match c with
  | .call (.submit _ _) => inferInstanceAs (Decidable (_ ∧ _ ∧ _ ≠ _))
  | .call (.chOpen _) | .call (.chRelease _) | .call (.read _ _ _ _) | .call (.write _ _ _)
  | .call (.mmap _ _ _) | .call .tick => inferInstanceAs (Decidable (_ ∧ _ ∧ True))
  | .blkOpen _ => inferInstanceAs (Decidable (_ ∧ _ ∉ _))
  | .blkRelease _ => inferInstanceAs (Decidable (_ ∧ _ ∈ _))
  | .remove => inferInstanceAs (Decidable (_ ∧ True))

/-! ## Every bio is accounted for -/

/-- The bios on the two lists. -/
def World.listed (s : World) : List Bio :=
  s.biosOf (s.dev.incomingBioList ++ s.dev.pendingBioList)

theorem listed_queued {s : World} (hwf : s.Wf) (bio : Bio) {new : Addr}
    (hnew : s.entries new = none) :
    ((s.publish bio new).account bio (bioDataDir bio)).listed.Perm (bio :: s.listed) := by
  have hne : ∀ a ∈ s.dev.incomingBioList ++ s.dev.pendingBioList, a ≠ new := by
    rintro a ha rfl
    rw [← hwf.live, hnew] at ha
    cases ha
  have hold : ((s.publish bio new).account bio (bioDataDir bio)).biosOf
      (s.dev.incomingBioList ++ s.dev.pendingBioList) = s.listed :=
    biosOf_congr fun a ha => Function.update_of_ne (hne a ha) _ _
  have hentry : ((s.publish bio new).account bio (bioDataDir bio)).entries new =
      some ⟨bio, s.jiffies⟩ := Function.update_self ..
  have hperm : (s.dev.incomingBioList ++ [new] ++ s.dev.pendingBioList).Perm
      (new :: (s.dev.incomingBioList ++ s.dev.pendingBioList)) := by
    rw [List.append_assoc]
    exact List.perm_middle
  have hbios := biosOf_perm ((s.publish bio new).account bio (bioDataDir bio)) hperm
  rw [biosOf_cons hentry, hold] at hbios
  exact hbios

/-- A completion of any entry. -/
theorem listed_finished {s : World} (hwf : s.Wf) {a : Addr} {entry : BioListEntry} (error : Int)
    (he : s.entries a = some entry) :
    s.listed.Perm (entry.bio :: (s.finish a entry error).listed) := by
  have hnodup := hwf.nodup
  have hmem : a ∈ s.dev.incomingBioList ++ s.dev.pendingBioList := by
    rw [← hwf.live, he]
    rfl
  have hperm : (s.dev.incomingBioList ++ s.dev.pendingBioList).Perm
      (a :: (s.dev.incomingBioList.erase a ++ s.dev.pendingBioList.erase a)) := by
    rcases List.mem_append.mp hmem with hin | hpend
    · have hnot : a ∉ s.dev.pendingBioList := fun h => hwf.not_incoming h hin
      rw [List.erase_of_not_mem hnot]
      exact (List.perm_cons_erase hin).append_right _
    · rw [List.erase_of_not_mem (hwf.not_incoming hpend)]
      exact ((List.perm_cons_erase hpend).append_left _).trans List.perm_middle
  have hgone : a ∉ s.dev.incomingBioList.erase a ++ s.dev.pendingBioList.erase a := by
    have := hperm.nodup_iff.mp hnodup
    exact (List.nodup_cons.mp this).1
  have hrest : (s.finish a entry error).listed =
      s.biosOf (s.dev.incomingBioList.erase a ++ s.dev.pendingBioList.erase a) :=
    biosOf_congr fun b hb => Function.update_of_ne (fun hba : b = a => hgone (hba ▸ hb)) _ _
  rw [hrest, ← biosOf_cons he]
  exact biosOf_perm s hperm

/-- A device, against what the outside has seen. -/
structure Ledgered (h : DeviceHist) (s : World) : Prop where
  wf : s.Wf
  removing : s.dev.removing = h.removed
  count : s.dev.ucnt = (hist h.calls).files.length + h.blocks.length
  once : h.submitted.Nodup
  bios : (s.endedBios ++ s.listed).Perm h.submitted

variable {d : DeviceHist} {s : World}

theorem submitted_call (d : DeviceHist) (c : Call) (r : Ret) :
    (d.record (.call c, r)).submitted = ((hist d.calls).record (c, r)).submitted := by
  simp [DeviceHist.record, DeviceHist.submitted]

theorem files_call (d : DeviceHist) (c : Call) (r : Ret) :
    (hist (d.record (.call c, r)).calls).files = ((hist d.calls).record (c, r)).files := by
  simp [DeviceHist.record]

/-- A call that takes no new bio: the bios may change places. -/
theorem Ledgered.moved (h : Ledgered d s) {c : Call} {r : Ret} {t : World} (hwf : t.Wf)
    (hr : t.dev.removing = s.dev.removing)
    (hcount : t.dev.ucnt = ((hist d.calls).record (c, r)).files.length + d.blocks.length)
    (hsub : ((hist d.calls).record (c, r)).submitted = (hist d.calls).submitted)
    (hperm : (t.endedBios ++ t.listed).Perm (s.endedBios ++ s.listed)) :
    Ledgered (d.record (.call c, r)) t := by
  have hsame : (d.record (.call c, r)).submitted = d.submitted := by
    rw [submitted_call, hsub]
    rfl
  refine ⟨hwf, hr.trans h.removing, ?_, ?_, ?_⟩
  · rw [files_call]
    exact hcount
  · rw [hsame]
    exact h.once
  · rw [hsame]
    exact hperm.trans h.bios

/-- A submission puts its bio on a list, or ends it. -/
theorem Ledgered.submit (h : Ledgered d s) {bio : Bio} {new : Option Addr} {r : Ret} {t : World}
    (hfresh : bio ∉ d.submitted) (hwf : t.Wf) (hr : t.dev.removing = s.dev.removing)
    (hcount : t.dev.ucnt = s.dev.ucnt)
    (hperm : (t.endedBios ++ t.listed).Perm (bio :: (s.endedBios ++ s.listed))) :
    Ledgered (d.record (.call (.submit bio new), r)) t := by
  have hsub : (d.record (.call (.submit bio new), r)).submitted = d.submitted ++ [bio] := by
    rw [submitted_call]
    rfl
  refine ⟨hwf, hr.trans h.removing, ?_, ?_, ?_⟩
  · rw [files_call, hcount]
    exact h.count
  · rw [hsub]
    exact List.nodup_append'.mpr ⟨h.once, List.nodup_singleton _, by simpa using hfresh⟩
  · rw [hsub]
    exact hperm.trans ((h.bios.cons bio).trans (List.perm_append_singleton _ _).symm)

/-- **Every call on the tunnel**, and every submission. -/
theorem Ledgered.call (h : Ledgered d s) (c : Call) (hv : vfs d.calls c) (he : tunnel.enabled s c) :
    Ledgered (d.record (.call c, (tunnelNext s c).2)) (tunnelNext s c).1 := by
  have hwf := h.wf.next c he.1 he.2
  have hok : KmallocOk s c := he.1
  have heff := effect_of_next s c he.2
  generalize tunnelNext s c = res at heff hwf
  have hcount := h.count
  cases heff with
  | refused bio =>
    refine h.submit hv hwf rfl rfl ?_
    have hended : (s.bioEndio bio (-eio)).endedBios = s.endedBios ++ [bio] := by
      simp [World.endedBios]
    show ((s.bioEndio bio (-eio)).endedBios ++ s.listed).Perm _
    rw [hended, List.append_assoc, List.singleton_append]
    exact List.perm_middle
  | queued bio new =>
    refine h.submit hv hwf rfl rfl ?_
    have hlisted := listed_queued h.wf bio hok.1
    show (s.endedBios ++ _).Perm _
    exact (hlisted.append_left _).trans List.perm_middle
  | opened f hopen =>
    refine h.moved hwf rfl ?_ rfl (.refl _)
    show s.dev.ucnt + 1 = ((f :: (hist d.calls).files).length : Int) + d.blocks.length
    rw [hcount, List.length_cons]
    omega
  | closed f =>
    have hmem : f ∈ (hist d.calls).files := hv
    have hpos := List.length_pos_of_mem hmem
    refine h.moved hwf rfl ?_ rfl ?_
    · show s.dev.ucnt - 1 = (((hist d.calls).files.erase f).length : Int) + d.blocks.length
      rw [hcount, List.length_erase_of_mem hmem]
      omega
    · have hlisted : ({ s with dev := bdtunchRelease s.dev } : World).listed = s.listed := by
        show s.biosOf (s.dev.incomingBioList ++ s.dev.pendingBioList ++ []) = _
        rw [List.append_nil]
        rfl
      rw [hlisted]
      exact .refl _
  | delivered f valid signal a rest entry hl hentry =>
    refine h.moved hwf rfl hcount rfl ?_
    have hlisted : (s.deliver a rest entry).listed.Perm s.listed := by
      show (s.biosOf (rest ++ (s.dev.pendingBioList ++ [a]))).Perm
        (s.biosOf (s.dev.incomingBioList ++ s.dev.pendingBioList))
      rw [hl, ← List.append_assoc]
      exact biosOf_perm _ List.perm_append_comm
    exact hlisted.append_left _
  | set f buf valid hlen =>
    have hrec : (hist d.calls).record (.write f buf valid, .ret buf.length .nothing) =
        { hist d.calls with lastSet := wordOf buf } := by
      simp [Hist.record, hlen]
    exact h.moved hwf rfl (by rw [hrec]; exact hcount) (by rw [hrec]) (.refl _)
  | completed f byte valid entry hentry =>
    have hrec : (hist d.calls).record (.write f [byte] valid, .ret 1 .nothing) =
        { hist d.calls with owed := (hist d.calls).owed.erase (hist d.calls).lastSet } := by
      simp [Hist.record, sizeofLong_ne_one.symm]
    refine h.moved hwf rfl (by rw [hrec]; exact hcount) (by rw [hrec]) ?_
    have hlisted := listed_finished h.wf (if byte ≠ 0 then -eio else 0) hentry
    have hended : (s.finish s.dev.dataCurrentBio entry
        (if byte ≠ 0 then -eio else 0)).endedBios = s.endedBios ++ [entry.bio] := by
      simp [World.endedBios, World.finish]
    rw [hended, List.append_assoc, List.singleton_append]
    exact hlisted.symm.append_left _
  | moved f buf valid mem code hlen hone =>
    have hrec : (hist d.calls).record (.write f buf valid, .ret code .nothing) = hist d.calls := by
      simp [Hist.record, hlen, hone]
    exact h.moved hwf rfl (by rw [hrec]; exact hcount) (by rw [hrec]) (.refl _)
  | quiet c r hq => exact h.moved hwf rfl (by rw [hq]; exact hcount) (by rw [hq]) (.refl _)
  | ticked j => exact h.moved hwf rfl hcount rfl (.refl _)

/-- What touches only the use count and the flag. -/
theorem Ledgered.congr (h : Ledgered d s) {d' : DeviceHist} {dev : Bdtun}
    (hi : dev.incomingBioList = s.dev.incomingBioList)
    (hp : dev.pendingBioList = s.dev.pendingBioList) (hr : dev.removing = d'.removed)
    (hc : d'.calls = d.calls)
    (hcount : dev.ucnt = (hist d.calls).files.length + d'.blocks.length) :
    Ledgered d' { s with dev := dev } := by
  have hsubmitted : d'.submitted = d.submitted := by rw [DeviceHist.submitted, hc]; rfl
  refine ⟨h.wf.congr hi hp rfl, hr, by rw [hc]; exact hcount, by rw [hsubmitted]; exact h.once, ?_⟩
  have hlisted : ({ s with dev := dev } : World).listed = s.listed := by
    show s.biosOf (dev.incomingBioList ++ dev.pendingBioList) = _
    rw [hi, hp]
    rfl
  rw [hsubmitted, hlisted]
  exact h.bios

theorem Ledgered.next {tr : List (DeviceCall × Ret)} (h : Ledgered (deviceHist tr) s)
    (c : DeviceCall) (hp : deviceUsers tr c) (he : DeviceOk s c) :
    Ledgered ((deviceHist tr).record (c, (deviceNext s c).2)) (deviceNext s c).1 := by
  obtain ⟨hstays, hp⟩ := hp
  have hr : s.dev.removing = false := h.removing.trans hstays
  cases c with
  | call c => exact h.call c hp.1 he
  | blkOpen b =>
    simp only [deviceNext, bdtunOpen_of_not_removing hr]
    refine h.congr rfl rfl h.removing rfl ?_
    show s.dev.ucnt + 1 =
      ((hist (deviceHist tr).calls).files.length : Int) + ((b :: (deviceHist tr).blocks).length : Nat)
    rw [h.count, List.length_cons]
    omega
  | blkRelease b =>
    have hmem : b ∈ (deviceHist tr).blocks := hp
    have hpos := List.length_pos_of_mem hmem
    refine h.congr rfl rfl h.removing rfl ?_
    show s.dev.ucnt - 1 = ((hist (deviceHist tr).calls).files.length : Int) +
      (((deviceHist tr).blocks.erase b).length : Nat)
    rw [h.count, List.length_erase_of_mem hmem]
    omega
  | remove =>
    simp only [deviceNext]
    rcases removeCheck_cases s.dev with ⟨hbusy, -⟩ | ⟨hgone, -, -⟩
    · rw [hbusy]
      exact h.congr rfl rfl h.removing rfl h.count
    · rw [hgone]
      exact h.congr rfl rfl rfl rfl h.count

theorem run_ledgered {blockSize size : Nat} {mem : Mem} {tr : List (DeviceCall × Ret)}
    (hrun : Run device deviceUsers (World.init blockSize size mem) tr s) :
    Ledgered (deviceHist tr) s := by
  refine hrun.invariant (fun tr s => Ledgered (deviceHist tr) s) ?_ ?_
  · exact ⟨World.Wf.init _ _ _, rfl, rfl, List.nodup_nil, .refl _⟩
  · intro tr s c h hp he
    rw [deviceHist_snoc]
    exact h.next c hp he

/-- The bio of a list entry was submitted and is not ended. -/
theorem Ledgered.live (h : Ledgered d s) {a : Addr} {entry : BioListEntry}
    (he : s.entries a = some entry) :
    entry.bio ∈ d.submitted ∧ entry.bio ∉ s.endedBios := by
  have hmem : a ∈ s.dev.incomingBioList ++ s.dev.pendingBioList := by
    rw [← h.wf.live, he]
    rfl
  have hlisted : entry.bio ∈ s.listed := mem_biosOf hmem he
  refine ⟨h.bios.subset (List.mem_append_right _ hlisted), fun hended => ?_⟩
  have hnodup := h.bios.nodup_iff.mpr h.once
  exact (List.nodup_append'.mp hnodup).2.2 hended hlisted

/-! ## Removal -/

/-- A removal that goes on finds no bio on the lists. -/
def NoneLeft (s : World) : Prop :=
  (removeCheck s.dev).2 = 0 → s.dev.incomingBioList = [] ∧ s.dev.pendingBioList = []

/-- The close of the last open file, on either node, finds no bio on the lists. -/
def LastCloseEmpty (s : World) : DeviceCall → Prop
  | .call (.chRelease _) =>
    s.dev.ucnt = 1 → s.dev.incomingBioList = [] ∧ s.dev.pendingBioList = []
  | .blkRelease _ => s.dev.ucnt = 1 → s.dev.incomingBioList = [] ∧ s.dev.pendingBioList = []
  | _ => True

theorem noneLeft_of_used (h : s.dev.ucnt ≠ 0) : NoneLeft s :=
  fun hgone => absurd ((removable_iff s.dev).mp hgone).2 h

/-- A close leaves the lists to a removal exactly when it is the last one. -/
theorem noneLeft_close {s t : World} (hu : t.dev.ucnt = s.dev.ucnt - 1)
    (hr : t.dev.removing = false)
    (hempty : t.dev.incomingBioList = [] ∧ t.dev.pendingBioList = [] ↔
      s.dev.incomingBioList = [] ∧ s.dev.pendingBioList = []) :
    NoneLeft t ↔
      (s.dev.ucnt = 1 → s.dev.incomingBioList = [] ∧ s.dev.pendingBioList = []) := by
  have hlast : (removeCheck t.dev).2 = 0 ↔ s.dev.ucnt = 1 := by
    rw [removable_iff, hu]
    constructor
    · rintro ⟨-, hzero⟩
      omega
    · intro hone
      exact ⟨hr, by omega⟩
  unfold NoneLeft
  rw [hlast, hempty]

/-- While a file is open no removal goes on. -/
theorem Ledgered.used_of_file (h : Ledgered d s) {f : FileId} (hf : f ∈ (hist d.calls).files) :
    s.dev.ucnt ≠ 0 := by
  have hpos := List.length_pos_of_mem hf
  rw [h.count]
  omega

theorem Ledgered.used_of_block (h : Ledgered d s) (hb : d.blocks ≠ []) : s.dev.ucnt ≠ 0 := by
  have hpos := List.length_pos_of_ne_nil hb
  rw [h.count]
  omega

theorem Ledgered.used_of_opened (h : Ledgered d s) : s.dev.ucnt + 1 ≠ 0 := by
  rw [h.count]
  omega

/-- **Every call on the tunnel**, and every submission. -/
theorem NoneLeft.call {tr : List (DeviceCall × Ret)} (h : NoneLeft s)
    (hl : Ledgered (deviceHist tr) s) (c : Call) (hp : deviceUsers tr (.call c))
    (he : tunnel.enabled s c) :
    NoneLeft (tunnelNext s c).1 ↔ LastCloseEmpty s (.call c) := by
  have heff := effect_of_next s c he.2
  obtain ⟨hstays, hv, hblock⟩ := hp
  have hr : s.dev.removing = false := hl.removing.trans hstays
  generalize tunnelNext s c = res at heff
  cases heff with
  | refused bio => exact iff_of_true (noneLeft_of_used (hl.used_of_block hblock)) trivial
  | queued bio new => exact iff_of_true (noneLeft_of_used (hl.used_of_block hblock)) trivial
  | opened f hopen => exact iff_of_true (noneLeft_of_used hl.used_of_opened) trivial
  | closed f =>
    refine noneLeft_close rfl hr ?_
    show s.dev.incomingBioList ++ s.dev.pendingBioList = [] ∧ ([] : List Addr) = [] ↔ _
    rw [List.append_eq_nil_iff, and_iff_left rfl]
  | delivered f valid signal a rest entry hlist hentry =>
    exact iff_of_true (noneLeft_of_used (hl.used_of_file hv)) trivial
  | set f buf valid hlen => exact iff_of_true (noneLeft_of_used (hl.used_of_file hv)) trivial
  | completed f byte valid entry hentry =>
    exact iff_of_true (noneLeft_of_used (hl.used_of_file hv)) trivial
  | moved f buf valid mem code hlen hone =>
    exact iff_of_true (noneLeft_of_used (hl.used_of_file hv)) trivial
  | quiet c r hq =>
    refine iff_of_true h ?_
    cases c with
    | chRelease f =>
      -- a close is not quiet: its file is gone from the open ones
      have hfiles := congrArg Hist.files (hq ⟨[f], [], 0, []⟩)
      simp [Hist.record] at hfiles
    | _ => trivial
  | ticked j => exact iff_of_true h trivial

theorem NoneLeft.next {tr : List (DeviceCall × Ret)} (h : NoneLeft s)
    (hl : Ledgered (deviceHist tr) s) (c : DeviceCall) (hp : deviceUsers tr c)
    (he : DeviceOk s c) : NoneLeft (deviceNext s c).1 ↔ LastCloseEmpty s c := by
  have hr : s.dev.removing = false := hl.removing.trans hp.1
  cases c with
  | call c => exact h.call hl c hp he
  | blkOpen b =>
    refine iff_of_true (noneLeft_of_used ?_) trivial
    simp only [deviceNext, bdtunOpen_of_not_removing hr]
    exact hl.used_of_opened
  | blkRelease b => exact noneLeft_close rfl hr Iff.rfl
  | remove =>
    refine iff_of_true ?_ trivial
    simp only [deviceNext]
    rcases removeCheck_cases s.dev with ⟨hbusy, -⟩ | ⟨hgone, -, -⟩
    · rw [hbusy]
      exact h
    · rw [hgone]
      intro hagain
      have hnot := ((removable_iff _).mp hagain).1
      exact absurd hnot (by simp)

/-- Every bio submitted has been ended, once, and no list entry is left. -/
structure Settled (h : DeviceHist) (s : World) : Prop where
  incoming : s.dev.incomingBioList = []
  pending : s.dev.pendingBioList = []
  ended : s.endedBios.Perm h.submitted
  once : s.endedBios.Nodup
  freed : ∀ a, s.entries a = none

theorem Ledgered.settled (h : Ledgered d s) (hin : s.dev.incomingBioList = [])
    (hpend : s.dev.pendingBioList = []) : Settled d s := by
  have hnone : s.listed = [] := by
    unfold World.listed
    rw [hin, hpend]
    rfl
  have hended : s.endedBios.Perm d.submitted := by
    have hbios := h.bios
    rwa [hnone, List.append_nil] at hbios
  refine ⟨hin, hpend, hended, hended.nodup_iff.mpr h.once, fun a => ?_⟩
  have hlive := h.wf.live a
  rw [hin, hpend] at hlive
  by_contra hentry
  have hmem := hlive.mp (Option.isSome_iff_ne_none.mpr hentry)
  cases hmem

/-- A run with a removal ends there. -/
theorem removed_last {e : DeviceCall × Ret} {tr : List (DeviceCall × Ret)}
    (hstays : (deviceHist tr).removed = false)
    (hgone : (deviceHist (tr ++ [e])).removed = true) : ∃ out, e = (.remove, .ret 0 out) := by
  rw [deviceHist_snoc] at hgone
  obtain ⟨c, r⟩ := e
  have hsame : ((deviceHist tr).record (c, r)).removed = true →
      (deviceHist tr).removed = ((deviceHist tr).record (c, r)).removed → False := by
    intro hrec heq
    rw [hstays, hrec] at heq
    cases heq
  cases c with
  | call c => exact (hsame hgone rfl).elim
  | blkOpen b =>
    cases r with
    | ret code out =>
      refine (hsame hgone ?_).elim
      simp only [DeviceHist.record]
      split <;> rfl
    | _ => exact (hsame hgone rfl).elim
  | blkRelease b => cases r <;> exact (hsame hgone rfl).elim
  | remove =>
    cases r with
    | ret code out =>
      by_cases hcode : code = 0
      · exact ⟨out, by rw [hcode]⟩
      · refine (hsame hgone ?_).elim
        simp [DeviceHist.record, hcode]
    | _ => exact (hsame hgone rfl).elim

/-- What removals are expected to leave, in every run that ends in one. -/
def RemovalSettles : Prop :=
  ∀ (blockSize size : Nat) (mem : Mem) tr s,
    Run device deviceUsers (World.init blockSize size mem) tr s →
    (deviceHist tr).removed = true → Settled (deviceHist tr) s

/-- **Removal and bios.**  All along a run a removal that went on would find the lists empty, exactly
when the close of the last open file always did; and then a removal leaves every bio ended once. -/
theorem removal_keeps_bios {blockSize size : Nat} {mem : Mem} {tr : List (DeviceCall × Ret)}
    (hrun : Run device deviceUsers (World.init blockSize size mem) tr s) :
    (AllStates device deviceUsers (World.init blockSize size mem) NoneLeft tr ↔
      AllSteps device deviceUsers (World.init blockSize size mem) LastCloseEmpty tr) ∧
    (AllSteps device deviceUsers (World.init blockSize size mem) LastCloseEmpty tr →
      (deviceHist tr).removed = true → Settled (deviceHist tr) s) := by
  have hiff : AllStates device deviceUsers (World.init blockSize size mem) NoneLeft tr ↔
      AllSteps device deviceUsers (World.init blockSize size mem) LastCloseEmpty tr := by
    refine Run.allStates_iff (fun _ => ⟨rfl, rfl⟩) ?_ hrun
    intro tr s c hrun hp he h
    exact h.next (run_ledgered hrun) c hp he
  refine ⟨hiff, fun hempty hgone => ?_⟩
  have hall := hiff.mpr hempty
  have hl := run_ledgered hrun
  rcases List.eq_nil_or_concat tr with rfl | ⟨tr, e, rfl⟩
  · cases hgone
  · rw [List.concat_eq_append] at *
    obtain ⟨s₁, h₁, hp, -, hans, rfl⟩ := hrun.last
    obtain ⟨out, rfl⟩ := removed_last hp.1 hgone
    have hzero : (removeCheck s₁.dev).2 = 0 := by
      have hret := (Ret.ret.inj hans).1
      exact hret.symm
    obtain ⟨hin, hpend⟩ := hall tr _ s₁ rfl h₁ hzero
    have hdev : (removeCheck s₁.dev).1 = { s₁.dev with removing := true } := by
      obtain ⟨hr, hu⟩ := (removable_iff _).mp hzero
      simp [removeCheck, hr, hu]
    refine hl.settled ?_ ?_
    · show (removeCheck s₁.dev).1.incomingBioList = []
      rw [hdev]
      exact hin
    · show (removeCheck s₁.dev).1.pendingBioList = []
      rw [hdev]
      exact hpend

end

section
attribute [local instance] linux32

/-- A write is submitted, and the device is closed and removed before any client reads it. -/
theorem removal_abandons : ¬ RemovalSettles := by
  intro h
  have hrun := @path_exec _ _ _ device deviceUsers [] (World.init 512 1024 fun _ => 0)
    [.blkOpen 0, .call (.submit sampleWrite (some 16)), .blkRelease 0, .remove] (by decide)
  have hsettled := h _ _ _ _ _ hrun (by decide)
  exact absurd hsettled.incoming (by decide)

/-- The write is completed before the device is closed. -/
theorem removal_keeps_bios_sample :
    let calls := [.blkOpen 0, .call (.chOpen 0), .call (.submit sampleWrite (some 16)),
      .call (.read 0 32 32 false), .call (.write 0 (wordBytes 8 16) 8), .call (.write 0 [0] 1),
      .blkRelease 0, .call (.chRelease 0), .remove]
    let start := World.init 512 1024 fun _ => 0
    AllStates device deviceUsers start NoneLeft (traceOf device start calls) ∧
      Settled (deviceHist (traceOf device start calls)) (exec device start calls) := by
  intro calls start
  have hrun := @path_exec _ _ _ device deviceUsers [] start calls (by decide)
  have hempty : AllSteps device deviceUsers start LastCloseEmpty (traceOf device start calls) := by
    refine allSteps_exec calls
      ⟨trivial, trivial, trivial, trivial, trivial, trivial, ?_, ?_, trivial, trivial⟩
    · exact fun _ => ⟨rfl, rfl⟩
    · exact fun _ => ⟨rfl, rfl⟩
  obtain ⟨hiff, hsettled⟩ := removal_keeps_bios hrun
  exact ⟨hiff.mpr hempty, hsettled hempty (by decide)⟩

end

end BDTun
