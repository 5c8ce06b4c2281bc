import BDTun.Isolation

/-!
# The id a call acts on, with any number of devices

The driver keeps whatever word a set-current write gave it and compares it with no
list.  A completion takes its entry from the list it is on and frees it, and leaves
the word where it is.

* `seen`: what the outside has seen of the device that has a name now; a completion
  on one device takes from what another is owed.
* `run_shown`: in every run that tells the pending list and the cursor of each device.
* `handles_checked`: the calls on a device keep to its pending entries exactly
  while the id last set is owed; where the others lead.
-/

namespace BDTun

open Memory Machine

section
variable [Kernel]

/-! ## What the outside has seen of each device -/

/-- An entry that was completed elsewhere is not owed any more. -/
def Hist.without (h : Hist) (freed : Option Addr) : Hist :=
  { h with owed := freed.elim h.owed fun a => h.owed.filter fun b => b ≠ a }

/-- What a call on a device tells of it. -/
def Hist.recordDevice (h : Hist) : DeviceCall × Ret → Hist
  | (.call c, r) => h.record (c, r)
  | _ => h

def seenRecord (h : DiskName → Hist) : DriverCall × DriverRet → DiskName → Hist
  | (.tunnel n c, .tunnel r), name =>
    if n = name then (h name).record (c, r) else (h name).without (c.frees (h n).lastSet)
  | (.control (.ctrlWrite _ (.create n _ _ _) _), .control (.wrote _ _)), name =>
    if n = name then ⟨[], [], 0, []⟩ else h name
  | (.control c, .control r), name =>
    match nodeOf c with
    | some (n, a) => if n = name then (h name).recordDevice (a, r.asRet) else h name
    | none => h name
  | _, name => h name

def seen (tr : List (DriverCall × DriverRet)) : DiskName → Hist :=
  tr.foldl seenRecord fun _ => ⟨[], [], 0, []⟩

theorem seen_snoc (tr : List (DriverCall × DriverRet)) (e : DriverCall × DriverRet) :
    seen (tr ++ [e]) = seenRecord (seen tr) e := by
  simp [seen]

variable {tr : List (DriverCall × DriverRet)} {s t : Driver} {h : DiskName → Hist}

/-- A command that makes no device of a name tells nothing of it. -/
theorem seen_control {c : CtrlCall} {r : CtrlRet} {name : DiskName} (hn : nodeOf c = none)
    (hquiet : ¬ MakesDevice name (c, r)) : seenRecord h (.control c, .control r) name = h name := by
  unfold seenRecord
  split
  · next heq => cases heq
  · next count n bs sz cap k l l' heq =>
    obtain ⟨hcall, hret⟩ := by simpa using heq
    subst hcall hret
    exact if_neg hquiet
  · next heq =>
    obtain ⟨hcall, hret⟩ := by simpa using heq
    subst hcall hret
    rw [hn]
  · rfl

theorem seen_made {c : CtrlCall} {r : CtrlRet} {name : DiskName} (hmade : MakesDevice name (c, r)) :
    seenRecord h (.control c, .control r) name = ⟨[], [], 0, []⟩ := by
  unfold MakesDevice at hmade
  split at hmade
  · next count n blocksize size capabilities k l l' heq =>
    obtain ⟨rfl, rfl⟩ := by simpa using heq
    exact if_pos hmade
  · exact hmade.elim

/-- What is seen of each listed device tells its pending list and its cursor. -/
def AllShown (h : DiskName → Hist) (s : Driver) : Prop :=
  ∀ d ∈ s.ctrl.deviceList, Shown (h d.diskName) (s.world d)

theorem Shown.same {hi : Hist} {d d' : Device} (hs : Shown hi (s.world d))
    (hd : SameQueues d.toBdtun d'.toBdtun) : Shown hi (t.world d') :=
  ⟨hd.pending.trans hs.owed, hd.cursor.trans hs.lastSet⟩

/-- A call on one device, for that device and the others. -/
theorem AllShown.tunnel (hs : AllShown h s) {ch : CtrlHist} (hlisted : Listed ch s.ctrl)
    {name : DiskName} {c : Call} {dev : Device} (hc : Calls s name c dev) :
    AllShown (seenRecord h (.tunnel name c, (wholeDriver.next s (.tunnel name c)).2))
      (wholeDriver.next s (.tunnel name c)).1 := by
  obtain ⟨hdev, rfl⟩ := find_some hc.found
  rw [hc.next]
  intro d' hd'
  obtain ⟨d, hd, rfl⟩ := List.mem_map.mp hd'
  by_cases haddr : d.addr = dev.addr
  · obtain rfl := hlisted.eq_of_addr hd hdev haddr
    rw [if_pos rfl]
    have hmine : seenRecord h (.tunnel d.diskName c, .tunnel (tunnelNext (s.world d) c).2)
        (d.withBdtun (tunnelNext (s.world d) c).1.dev).diskName =
        (h d.diskName).record (c, (tunnelNext (s.world d) c).2) := if_pos rfl
    rw [hmine]
    exact (hs d hd).next c hc.ok
  · rw [if_neg haddr]
    have hne : dev.diskName ≠ d.diskName := fun heq =>
      haddr (congrArg Device.addr (hlisted.eq_of_name hd hdev heq.symm))
    have hcursor : dev.dataCurrentBio = (h dev.diskName).lastSet := (hs dev hdev).lastSet
    obtain ⟨howed, hlast⟩ := hs d hd
    have htheirs : seenRecord h (.tunnel dev.diskName c, .tunnel (tunnelNext (s.world dev) c).2)
        d.diskName = (h d.diskName).without (c.frees dev.dataCurrentBio) := by
      rw [hcursor]
      exact if_neg hne
    cases hf : c.frees dev.dataCurrentBio with
    | none =>
      rw [hf] at htheirs
      show Shown (seenRecord h _ d.diskName) _
      rw [htheirs]
      exact ⟨howed, hlast⟩
    | some a =>
      rw [hf] at htheirs
      show Shown (seenRecord h _ d.diskName) _
      rw [htheirs]
      exact ⟨congrArg (fun l => l.filter fun b => b ≠ a) howed, hlast⟩

/-- Opens and closes of the block device, and a refused removal, leave the data path. -/
theorem Shown.device {hi : Hist} {w : World} (hs : Shown hi w) {a : DeviceCall}
    (ha : ∀ c, a ≠ .call c) : Shown hi (deviceNext w a).1 := by
  obtain ⟨howed, hlast⟩ := hs
  cases a with
  | call c => exact absurd rfl (ha c)
  | blkOpen b =>
    simp only [deviceNext, bdtunOpen]
    split <;> exact ⟨howed, hlast⟩
  | blkRelease b => exact ⟨howed, hlast⟩
  | remove =>
    simp only [deviceNext, removeCheck]
    split
    · exact ⟨howed, hlast⟩
    · split <;> exact ⟨howed, hlast⟩

theorem Shown.node {hi : Hist} {w : World} (hs : Shown hi w) {a : DeviceCall}
    (hr : (deviceNext w a).2 ≠ .oops) :
    Shown (hi.recordDevice (a, (deviceNext w a).2)) (deviceNext w a).1 := by
  cases a with
  | call c => exact hs.next c hr
  | _ => exact hs.device (by simp)

/-- An open or a close. -/
theorem AllShown.node (hs : AllShown h s) {ch : CtrlHist} (hlisted : Listed ch s.ctrl)
    {c : CtrlCall} {name : DiskName} {a : DeviceCall} (hn : nodeOf c = some (name, a)) :
    AllShown (seenRecord h (.control c, (wholeDriver.next s (.control c)).2))
      (wholeDriver.next s (.control c)).1 := by
  obtain ⟨k, hcontrol, hdevice⟩ := node_call hn
  have hlist : (wholeDriver.next s (.control c)).1.ctrl = (nodeCall s.ctrl name k).1 :=
    congrArg Prod.fst (hcontrol s.ctrl)
  have hret : (wholeDriver.next s (.control c)).2 = .control (nodeCall s.ctrl name k).2 := by
    show DriverRet.control (controlNext s.ctrl c).2 = _
    rw [hcontrol]
  have hrecord : ∀ r n, seenRecord h (.control c, .control r) n =
      if name = n then (h n).recordDevice (a, r.asRet) else h n := by
    intro r n
    cases c with
    | ctrlWrite count c k => cases hn
    | _ => simp only [seenRecord, hn]
  intro d' hd'
  rw [hlist] at hd'
  rw [hret, hrecord]
  cases hf : bdtunFindDevice s.ctrl.deviceList name with
  | none =>
    have hstate : (nodeCall s.ctrl name k).1 = s.ctrl := by rw [nodeCall, hf]
    have hd : d' ∈ s.ctrl.deviceList := by
      rw [← hstate]
      exact hd'
    rw [if_neg fun heq => find_none.mp hf d' hd heq.symm]
    exact (hs d' hd).same (.refl _)
  | some dev =>
    obtain ⟨hdev, rfl⟩ := find_some hf
    have hcall : nodeCall s.ctrl dev.diskName k =
        (s.ctrl.update dev.addr fun d => d.withBdtun (nodeNext dev.toBdtun k).1,
          .ret (nodeNext dev.toBdtun k).2) := by
      rw [nodeCall, hf]
    rw [hcall] at hd' ⊢
    obtain ⟨d, hd, rfl⟩ := mem_update.mp hd'
    by_cases haddr : d.addr = dev.addr
    · obtain rfl := hlisted.eq_of_addr hd hdev haddr
      have hsame : (d.withBdtun (nodeNext d.toBdtun k).1).diskName = d.diskName := rfl
      have hok : (deviceNext (s.world d) a).2 ≠ .oops := by simp [hdevice]
      have hshown := (hs d hd).node hok
      rw [hdevice] at hshown
      rw [if_pos rfl, hsame, if_pos rfl]
      exact ⟨hshown.owed, hshown.lastSet⟩
    · have hne : dev.diskName ≠ d.diskName := fun heq =>
        haddr (congrArg Device.addr (hlisted.eq_of_name hd hdev heq.symm))
      rw [if_neg haddr, if_neg hne]
      exact (hs d hd).same (.refl _)

/-- Any other call of the control plane. -/
theorem AllShown.command (hs : AllShown h s) {c : CtrlCall} (hn : nodeOf c = none)
    (hr : (controlNext s.ctrl c).2 ≠ .oops) :
    AllShown (seenRecord h (.control c, (wholeDriver.next s (.control c)).2))
      (wholeDriver.next s (.control c)).1 := by
  intro d hd
  rcases control_devices hn hr d hd with ⟨⟨e, he, hname, hdata⟩, hquiet⟩ | ⟨-, hmade, hfresh⟩
  · have hrecord : seenRecord h (.control c, .control (controlNext s.ctrl c).2) d.diskName =
        h e.diskName := by
      rw [← hname]
      exact seen_control hn hquiet
    show Shown (seenRecord h (.control c, .control (controlNext s.ctrl c).2) d.diskName) _
    rw [hrecord]
    exact (hs e he).same hdata
  · have hrecord : seenRecord h (.control c, .control (controlNext s.ctrl c).2) d.diskName =
        ⟨[], [], 0, []⟩ := seen_made hmade
    show Shown (seenRecord h (.control c, .control (controlNext s.ctrl c).2) d.diskName) _
    rw [hrecord]
    obtain ⟨-, hpending, hcursor, -⟩ := hfresh 0 0
    exact ⟨hpending.symm, hcursor.symm⟩

/-- **In every run** of the driver, whatever the clients do, the pending list of a device is what was
delivered since the last close of one of its files and not completed since, by any device, and its
cursor is the id last set on it. -/
theorem run_shown {mem : Mem} (hrun : Run wholeDriver driverUsers (.init mem) tr s) :
    AllShown (seen tr) s := by
  refine Run.keeps (fun tr s => AllShown (seen tr) s) ?_ ?_ hrun
  · intro d hd
    cases hd
  · intro tr s c hrun hs hp he
    rw [seen_snoc]
    have hlisted := run_listing hrun
    cases c with
    | tick => exact fun d hd => (hs d hd).same (.refl _)
    | pages ps bytes => exact fun d hd => (hs d hd).same (.refl _)
    | tunnel name c =>
      obtain ⟨dev, hc⟩ := tunnel_calls he
      exact hs.tunnel hlisted hc
    | control c =>
      cases hn : nodeOf c with
      | none => exact hs.command hn he.2
      | some p => exact hs.node hlisted hn

/-! ## Ids are not checked -/

/-- What a driver that checks its ids does: the call acts on an entry that is pending on the device,
or it is an error that leaves the lists, the bios, their pages and the statistics. -/
def KeepsToPending (s : Driver) (dev : Device) (c : Call) : Prop :=
  ∀ a, c.target (s.world dev) = some a →
    a ∈ dev.pendingBioList ∧
      (wholeDriver.next s (.tunnel dev.diskName c)).2 ≠ .tunnel .oops ∨
    ∃ code out t, code < 0 ∧
      wholeDriver.next s (.tunnel dev.diskName c) = (t, .tunnel (.ret code out)) ∧
      t.ctrl = s.ctrl ∧ t.entries = s.entries ∧ t.ended = s.ended ∧ t.mem = s.mem

/-- And it does so in every state, for every call on an open file. -/
def HandlesChecked (mem : Mem) : Prop :=
  ∀ tr s, Run wholeDriver driverUsers (.init mem) tr s → ∀ dev ∈ s.ctrl.deviceList,
    ∀ c, driverUsers tr (.tunnel dev.diskName c) → KeepsToPending s dev c

/-- The call acts on the entry at `a`. -/
def ActsOn (s : Driver) (dev : Device) (c : Call) (a : Addr) : Prop :=
  wholeDriver.next s (.tunnel dev.diskName c) =
      (s.put dev (c.body (s.world dev) a).1 (c.frees a), .tunnel (c.body (s.world dev) a).2) ∧
    (c.body (s.world dev) a).2 ≠ .oops

variable {dev : Device} {c : Call} {a : Addr}

/-- A call with a target is its body there, but for a completion next to a freed list head. -/
theorem target_next {ch : CtrlHist} (hlisted : Listed ch s.ctrl) (hd : dev ∈ s.ctrl.deviceList)
    (ht : c.target (s.world dev) = some a) :
    wholeDriver.next s (.tunnel dev.diskName c) =
      if (c.frees a).any fun b => ¬ s.unlinkable b then (s, .tunnel .oops)
      else (s.put dev (c.body (s.world dev) a).1 (c.frees a),
        .tunnel (c.body (s.world dev) a).2) := by
  obtain ⟨hcur, hbody⟩ := next_of_target ht
  have hcursor : dev.dataCurrentBio = a := hcur.symm
  simp only [wholeDriver, driverNext, hlisted.find hd, hcursor, hbody]

/-- A call on an allocated entry acts on it, if that can be unlinked. -/
theorem acts_on_live {ch : CtrlHist} (hlisted : Listed ch s.ctrl) (hd : dev ∈ s.ctrl.deviceList)
    (ht : c.target (s.world dev) = some a) {entry : BioListEntry} (hlive : s.entries a = some entry)
    (hfree : ∀ b ∈ c.frees a, s.unlinkable b) : ActsOn s dev c a := by
  have hgoes : (c.frees a).any (fun b => ¬ s.unlinkable b) = false := by
    cases hf : c.frees a with
    | none => rfl
    | some b => simpa using hfree b hf
  refine ⟨?_, body_of_live ht hlive⟩
  rw [target_next hlisted hd ht, hgoes]
  rfl

theorem frees_self {b : Addr} (h : b ∈ c.frees a) : b = a := by
  unfold Call.frees at h
  split at h
  · exact (Option.some.inj h).symm
  · cases h

theorem byte_target (w : World) (f : FileId) (byte : UInt8) (valid : Nat) :
    (Call.write f [byte] valid).target w = some w.dev.dataCurrentBio :=
  if_neg fun h => sizeofLong_ne_one h.symm

/-- A completion byte does not fail. -/
theorem byte_answers {ch : CtrlHist} (hlisted : Listed ch s.ctrl) (hd : dev ∈ s.ctrl.deviceList)
    (f : FileId) (byte : UInt8) (valid : Nat) {code : Int} {out : Out} {t : Driver}
    (hnext : wholeDriver.next s (.tunnel dev.diskName (.write f [byte] valid)) =
      (t, .tunnel (.ret code out))) : code = 1 := by
  rw [target_next hlisted hd (byte_target _ f byte valid)] at hnext
  split at hnext
  · simp at hnext
  · have hbody := congrArg Prod.snd hnext
    simp only [Call.body, World.complete] at hbody
    split at hbody
    · simp at hbody
    · simp only [DriverRet.tunnel.injEq, Ret.ret.injEq] at hbody
      exact hbody.1.symm

/-- Calls with a target are on open files. -/
theorem open_of_target {name : DiskName} {w : World} (ht : c.target w = some a)
    (hp : driverUsers tr (.tunnel name c)) :
    ∃ f, (name, (Node.tunnel, f)) ∈ (ctrlHist (controlPart tr)).handles := by
  cases c with
  | read f count valid signal => exact ⟨f, hp⟩
  | write f buf valid => exact ⟨f, hp⟩
  | mmap f vma fail => exact ⟨f, hp⟩
  | submit bio new => cases ht
  | chOpen f => cases ht
  | chRelease f => cases ht
  | tick => cases ht

/-- A call whose target is on a list acts on it. -/
theorem acts_on_linked {ch : CtrlHist} (hlisted : Listed ch s.ctrl) {bios : List Bio}
    (hacc : Accounted bios s) (hd : dev ∈ s.ctrl.deviceList) (ht : c.target (s.world dev) = some a)
    (hlinked : a ∈ s.linked) : ActsOn s dev c a := by
  obtain ⟨entry, hlive⟩ := Option.isSome_iff_exists.mp (hacc.linked_live hlinked)
  refine acts_on_live hlisted hd ht hlive fun b hb => ?_
  rw [frees_self hb]
  exact .inl hlinked

/-- One whose target a removal left behind does so too, unless it goes through the freed head of the
list. -/
theorem acts_on_left {ch : CtrlHist} (hlisted : Listed ch s.ctrl) (hd : dev ∈ s.ctrl.deviceList)
    (ht : c.target (s.world dev) = some a) {entry : BioListEntry} (hlive : s.entries a = some entry) :
    ActsOn s dev c a ∨ c.frees a = some a ∧ ¬ s.unlinkable a ∧
      (wholeDriver.next s (.tunnel dev.diskName c)).2 = .tunnel .oops := by
  by_cases hfree : ∀ b ∈ c.frees a, s.unlinkable b
  · exact .inl (acts_on_live hlisted hd ht hlive hfree)
  · simp only [not_forall] at hfree
    obtain ⟨b, hb, hnot⟩ := hfree
    obtain rfl := frees_self hb
    have hfault : (c.frees b).any (fun b => ¬ s.unlinkable b) = true := by
      rw [Option.mem_def.mp hb]
      simpa using hnot
    refine .inr ⟨hb, hnot, ?_⟩
    rw [target_next hlisted hd ht, if_pos hfault]

/-- Where nothing is allocated the target is dereferenced all the same. -/
theorem faults_on_dead {ch : CtrlHist} (hlisted : Listed ch s.ctrl) (hd : dev ∈ s.ctrl.deviceList)
    (ht : c.target (s.world dev) = some a) (hdead : s.entries a = none) :
    (wholeDriver.next s (.tunnel dev.diskName c)).2 = .tunnel .oops := by
  rw [target_next hlisted hd ht]
  split
  · rfl
  · rw [body_of_dead ht hdead]

/-- **When the calls on a device keep to its pending entries.**  In every run of the driver, with any
number of devices and whatever the clients do, and for every listed device: every call that its
clients may make next acts on an entry that is pending on the device, or is an error that changes
nothing, exactly when no tunnel file of it is open, or the id last set on it was handed out by one of
its header reads and since then neither completed, by any device, nor followed by a close of one of
its tunnel files.

The target of a call is always the id last set.  The call acts on it on whichever device's list it
is, and where it was left behind by a removal, unless that leads to the freed head of the list; where
no entry is allocated, the call dereferences the id all the same. -/
theorem handles_checked {mem : Mem} (hrun : Run wholeDriver driverUsers (.init mem) tr s)
    (hd : dev ∈ s.ctrl.deviceList) :
    ((∀ c, driverUsers tr (.tunnel dev.diskName c) → KeepsToPending s dev c) ↔
      ((∃ f, (dev.diskName, (Node.tunnel, f)) ∈ (ctrlHist (controlPart tr)).handles) →
        (seen tr dev.diskName).lastSet ∈ (seen tr dev.diskName).owed)) ∧
    ∀ c a, c.target (s.world dev) = some a →
      a = (seen tr dev.diskName).lastSet ∧
      (a ∈ dev.pendingBioList ↔ a ∈ (seen tr dev.diskName).owed) ∧
      (a ∈ s.linked ∧ ActsOn s dev c a ∨
        a ∈ s.leftBehind.flatten ∧
          (ActsOn s dev c a ∨
            c.frees a = some a ∧ ¬ s.unlinkable a ∧
              (wholeDriver.next s (.tunnel dev.diskName c)).2 = .tunnel .oops) ∨
        s.entries a = none ∧
          (wholeDriver.next s (.tunnel dev.diskName c)).2 = .tunnel .oops) := by
  have hlisted := run_listing hrun
  have hacc := run_accounted hrun
  obtain ⟨howed, hlast⟩ := run_shown hrun dev hd
  have htarget : ∀ (c : Call) (a : Addr), c.target (s.world dev) = some a →
      a = (seen tr dev.diskName).lastSet := fun c a ht => (next_of_target ht).1.trans hlast
  have hpending : ∀ a, a ∈ dev.pendingBioList ↔ a ∈ (seen tr dev.diskName).owed := fun a => by
    rw [← howed]
    rfl
  refine ⟨⟨fun hkeeps ⟨f, hf⟩ => ?_, fun howes c hp a ht => ?_⟩, fun c a ht =>
    ⟨htarget c a ht, hpending a, ?_⟩⟩
  · -- a completion byte is never an error
    have ht := byte_target (s.world dev) f 0 1
    rcases hkeeps (.write f [0] 1) hf _ ht with ⟨hmem, -⟩ | ⟨code, out, t, hneg, hnext, -⟩
    · rw [← htarget (.write f [0] 1) _ ht]
      exact (hpending _).mp hmem
    · have hone := byte_answers hlisted hd f 0 1 hnext
      omega
  · left
    have hmem : a ∈ dev.pendingBioList := by
      rw [hpending, htarget c a ht]
      exact howes (open_of_target ht hp)
    obtain ⟨hnext, hok⟩ := acts_on_linked hlisted hacc hd ht
      (List.mem_flatMap.mpr ⟨dev, hd, List.mem_append_right _ hmem⟩)
    refine ⟨hmem, ?_⟩
    rw [hnext]
    simpa using hok
  · cases hentry : s.entries a with
    | none => exact .inr (.inr ⟨rfl, faults_on_dead hlisted hd ht hentry⟩)
    | some entry =>
      have hheld := (hacc.live a).mp (by rw [hentry]; rfl)
      rcases List.mem_append.mp hheld with hlinked | hleft
      · exact .inl ⟨hlinked, acts_on_linked hlisted hacc hd ht hlinked⟩
      · exact .inr (.inl ⟨hleft, acts_on_left hlisted hd ht hentry⟩)

end

section
attribute [local instance] linux32

/-- A write is read, set and completed. -/
def sampleDone : List DriverCall :=
  sampleHome ++ [.tunnel otherName (.write 0 [0] 1)]

/-- A set id of another device's entry completes that. -/
example : (exec wholeDriver (.init fun _ => 0) sampleCrossing).ended = [(sampleWrite, 0)] := by
  decide +kernel

/-- Completed a second time, its entry is freed memory that the driver goes through. -/
theorem handles_unchecked : ¬ HandlesChecked fun _ => 0 := by
  intro h
  have hrun := @path_exec _ _ _ wholeDriver driverUsers [] (.init fun _ => 0) sampleDone
    (by decide +kernel)
  have hlisted : (bdtunFindDevice (exec wholeDriver (.init fun _ => 0) sampleDone).ctrl.deviceList
      otherName).map (fun d => d.pendingBioList) = some [] := by decide +kernel
  obtain ⟨d, hd, hnone⟩ := Option.map_eq_some_iff.mp hlisted
  obtain ⟨hmem, hname⟩ := find_some hd
  have hopen : driverUsers (traceOf wholeDriver (.init fun _ => 0) sampleDone)
      (.tunnel d.diskName (.write 0 [0] 1)) := by
    rw [hname]
    decide +kernel
  rcases h _ _ hrun d hmem (.write 0 [0] 1) hopen _ (byte_target _ 0 0 1) with
    ⟨hpending, -⟩ | ⟨code, out, t, hneg, hnext, -⟩
  · rw [hnone] at hpending
    cases hpending
  · have hone := byte_answers (run_listing hrun) hmem 0 0 1 hnext
    omega

/-- Until then every call on the device keeps to its pending entries. -/
theorem handles_checked_sample :
    ∃ d ∈ (exec wholeDriver (.init fun _ => 0) sampleHome).ctrl.deviceList,
      d.diskName = otherName ∧ d.pendingBioList = [16] ∧
      ∀ c, driverUsers (traceOf wholeDriver (.init fun _ => 0) sampleHome) (.tunnel d.diskName c) →
        KeepsToPending (exec wholeDriver (.init fun _ => 0) sampleHome) d c := by
  have hrun := @path_exec _ _ _ wholeDriver driverUsers [] (.init fun _ => 0) sampleHome
    (by decide +kernel)
  have hlisted : (bdtunFindDevice (exec wholeDriver (.init fun _ => 0) sampleHome).ctrl.deviceList
      otherName).map (fun d => d.pendingBioList) = some [16] := by decide +kernel
  obtain ⟨d, hd, hpending⟩ := Option.map_eq_some_iff.mp hlisted
  obtain ⟨hmem, hname⟩ := find_some hd
  refine ⟨d, hmem, hname, hpending, (handles_checked hrun hmem).1.mpr fun _ => ?_⟩
  rw [hname]
  decide +kernel

end

end BDTun
