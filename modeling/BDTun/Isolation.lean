import Mathlib.Data.List.Pairwise
import BDTun.Census
import BDTun.Near
import BDTun.Removal

/-!
# Each device on its own

While the calls that go through a cursor find an entry of their own device, a device
in a driver with many is the device of `device`, which has a kernel for itself: it
goes through the same states with the same answers, whatever happens to the others,
and but for the bytes of payload reads, since the pages are anybody's.

* `story`: the calls of a run that are a device's, since it was created.
* `Lives`: a listed device, and a run of `device` it is near to; what a call does to
  it, whether it is on the device (`Lives.call`, `Lives.node`) or not (`Lives.other`).
* `devices_isolated`: in such runs the story of every listed device is a run of
  `device`.
-/

namespace BDTun

open Memory Machine

section
variable [Kernel]

/-! ## The calls that are a device's -/

/-- An open or a close of a node, as a call on its device. -/
def nodeOf : CtrlCall → Option (DiskName × DeviceCall)
  | .opens name (.block, b) => some (name, .blkOpen b)
  | .opens name (.tunnel, f) => some (name, .call (.chOpen f))
  | .releases name (.block, b) => some (name, .blkRelease b)
  | .releases name (.tunnel, f) => some (name, .call (.chRelease f))
  | _ => none

/-- What it answers. -/
def CtrlRet.asRet : CtrlRet → Ret
  | .ret code => .ret code .nothing
  | _ => .oops

/-- `jiffies` advances. -/
def tickStep : DeviceCall × Ret := (.call .tick, .ret 0 .nothing)

/-- The time, and the calls on the device that has a name now. -/
structure Story where
  ticks : Nat
  calls : List (DeviceCall × Ret)

def Story.record (name : DiskName) (y : Story) : DriverCall × DriverRet → Story
  | (.tick, _) => { ticks := y.ticks + 1, calls := y.calls ++ [tickStep] }
  | (.tunnel n c, .tunnel r) => if n = name then { y with calls := y.calls ++ [(.call c, r)] } else y
  | (.control (.ctrlWrite _ (.create n _ _ _) _), .control (.wrote _ _)) =>
    -- a new device, in a kernel that has been running for some time
    if n = name then { y with calls := List.replicate y.ticks tickStep } else y
  | (.control c, .control r) =>
    match nodeOf c with
    | some (n, a) => if n = name then { y with calls := y.calls ++ [(a, r.asRet)] } else y
    | none => y
  | _ => y

def story (name : DiskName) (tr : List (DriverCall × DriverRet)) : Story :=
  tr.foldl (Story.record name) ⟨0, []⟩

theorem story_snoc (name : DiskName) (tr : List (DriverCall × DriverRet))
    (e : DriverCall × DriverRet) : story name (tr ++ [e]) = (story name tr).record name e := by
  simp [story]

/-- A call that goes through the cursor finds an entry of its own device. -/
def KeepsOwn (s : Driver) : DriverCall → Prop
  | .tunnel name c => ∀ dev ∈ bdtunFindDevice s.ctrl.deviceList name,
    ∀ a ∈ c.target (s.world dev), a ∈ dev.bioList
  | _ => True

instance (s : Driver) (c : DriverCall) : Decidable (KeepsOwn s c) :=
  match c with
  | .tunnel _ _ => inferInstanceAs (Decidable (∀ _ ∈ _, ∀ _ ∈ _, _ ∈ _))
  | .control _ | .pages _ _ | .tick => inferInstanceAs (Decidable True)

/-- A step of the device alone, with an answer that is alike. -/
def AlikeStep (e e' : DeviceCall × Ret) : Prop := e.1 = e'.1 ∧ AlikeRet e.2 e'.2

/-- The same files are open. -/
structure SameHandles (dh : DeviceHist) (h : CtrlHist) (name : DiskName) : Prop where
  files : ∀ f, (hist dh.calls).files.count f = h.handles.count (name, (Node.tunnel, f))
  blocks : ∀ b, dh.blocks.count b = h.handles.count (name, (Node.block, b))

/-- A call that opens and closes nothing. -/
theorem SameHandles.call {dh : DeviceHist} {h : CtrlHist} {name : DiskName}
    (hs : SameHandles dh h name) {c : Call} {r : Ret}
    (hc : ((hist dh.calls).record (c, r)).files = (hist dh.calls).files) :
    SameHandles (dh.record (.call c, r)) h name :=
  ⟨fun f => by rw [files_call, hc, hs.files], hs.blocks⟩

/-- A device among others, and the same device in a kernel of its own. -/
structure Lives (start : World) (h : CtrlHist) (subs : List (DiskName × Bio))
    (calls : List (DeviceCall × Ret))
    (s : Driver) (d : Device) (own : List (DeviceCall × Ret)) (w : World) : Prop where
  run : Run device deviceUsers start own w
  alike : List.Forall₂ AlikeStep calls own
  near : Near (s.world d) w
  handles : SameHandles (deviceHist own) h d.diskName
  submitted : ∀ bio ∈ (deviceHist own).submitted, (d.diskName, bio) ∈ subs
  stays : (deviceHist own).removed = false

variable {v w : World} {blockSize size : Nat} {mem mem' : Mem} {start : World} {h h' : CtrlHist}
  {subs subs' : List (DiskName × Bio)} {calls own : List (DeviceCall × Ret)} {s t : Driver} {d d' : Device}

theorem Lives.wf (hl : Lives (.init blockSize size mem) h subs calls s d own w) : w.Wf :=
  (run_ledgered hl.run).wf

theorem Lives.nodup (hl : Lives (.init blockSize size mem) h subs calls s d own w) :
    d.bioList.Nodup := by
  have hnodup := hl.wf.nodup
  rw [hl.near.data.incoming, hl.near.data.pending] at hnodup
  exact hnodup

/-- What happens to the others. -/
theorem Lives.other (hl : Lives start h subs calls s d own w) (hname : d'.diskName = d.diskName)
    (hd : SameQueues d.toBdtun d'.toBdtun) (he : ∀ a ∈ d.bioList, t.entries a = s.entries a)
    (hj : t.jiffies = s.jiffies)
    (hh : ∀ k : Handle, h'.handles.count (d.diskName, k) = h.handles.count (d.diskName, k))
    (hsubs : subs ⊆ subs') : Lives start h' subs' calls t d' own w where
  run := hl.run
  alike := hl.alike
  near := hl.near.congr hd he hj
  handles := by
    rw [hname]
    exact ⟨fun f => by rw [hh, hl.handles.files], fun b => by rw [hh, hl.handles.blocks]⟩
  submitted bio hbio := by
    rw [hname]
    exact hsubs (hl.submitted bio hbio)
  stays := hl.stays

/-- What happens to the device itself. -/
theorem Lives.step (hl : Lives start h subs calls s d own w) (hname : d'.diskName = d.diskName)
    (c : DeviceCall) {r : Ret} (hp : deviceUsers own c) (he : DeviceOk w c)
    (halike : AlikeRet r (deviceNext w c).2) (hnear : Near (t.world d') (deviceNext w c).1)
    (hhandles : SameHandles ((deviceHist own).record (c, (deviceNext w c).2)) h' d.diskName)
    (hsubs : ∀ bio ∈ ((deviceHist own).record (c, (deviceNext w c).2)).submitted,
      (d.diskName, bio) ∈ subs')
    (hstays : ((deviceHist own).record (c, (deviceNext w c).2)).removed = false) :
    Lives start h' subs' (calls ++ [(c, r)]) t d' (own ++ [(c, (deviceNext w c).2)])
      (deviceNext w c).1 where
  run := hl.run.step c hp he
  alike := List.rel_append hl.alike (.cons ⟨rfl, halike⟩ .nil)
  near := hnear
  handles := by rw [hname, deviceHist_snoc]; exact hhandles
  submitted := by rw [hname, deviceHist_snoc]; exact hsubs
  stays := by rw [deviceHist_snoc]; exact hstays

/-! ## The clock -/

theorem Lives.tick (hl : Lives (.init blockSize size mem) h subs calls s d own w) :
    Lives (.init blockSize size mem) h subs (calls ++ [tickStep]) (wholeDriver.next s .tick).1 d
      (own ++ [tickStep]) (deviceNext w (.call .tick)).1 := by
  have hjiffies := hl.near.jiffies
  refine hl.step rfl (.call .tick) ⟨hl.stays, trivial, trivial⟩ ⟨trivial, by simp [tunnelNext]⟩
    (.same _) ⟨hl.near.data, hl.near.entries, ?_⟩ (hl.handles.call rfl) ?_ hl.stays
  · show (w.jiffies + 1) % 2 ^ bitsPerLong = (s.jiffies + 1) % 2 ^ bitsPerLong
    rw [hjiffies]
    rfl
  · intro bio hbio
    rw [submitted_call] at hbio
    exact hl.submitted bio hbio

/-- A device in a kernel that has only counted its ticks. -/
theorem ticks_run (blockSize size : Nat) (mem : Mem) (n : Nat) :
    Run device deviceUsers (World.init blockSize size mem) (List.replicate n tickStep)
        { World.init blockSize size mem with jiffies := n % 2 ^ bitsPerLong } ∧
      deviceHist (List.replicate n tickStep) =
        ⟨List.replicate n (.tick, .ret 0 .nothing), [], false⟩ := by
  induction n with
  | zero =>
    rw [Nat.zero_mod]
    exact ⟨.refl, rfl⟩
  | succ n ih =>
    obtain ⟨hrun, hhist⟩ := ih
    have hstays : (deviceHist (List.replicate n tickStep)).removed = false := by rw [hhist]
    have hp : deviceUsers ([] ++ List.replicate n tickStep) (.call .tick) :=
      ⟨hstays, trivial, trivial⟩
    have he : device.enabled
        { World.init blockSize size mem with jiffies := n % 2 ^ bitsPerLong } (.call .tick) :=
      ⟨trivial, by simp [tunnelNext]⟩
    have hstep := hrun.step (.call .tick) hp he
    rw [List.replicate_succ', List.replicate_succ', deviceHist_snoc, hhist]
    refine ⟨?_, rfl⟩
    have hjiffies : (n % 2 ^ bitsPerLong + 1) % 2 ^ bitsPerLong = (n + 1) % 2 ^ bitsPerLong := by
      rw [Nat.mod_add_mod]
    rw [← hjiffies]
    exact hstep

theorem ticks_hist (n : Nat) :
    hist (List.replicate n (.tick, .ret 0 .nothing)) = ⟨[], [], 0, []⟩ := by
  induction n with
  | zero => rfl
  | succ n ih => rw [List.replicate_succ', hist_snoc, ih]; rfl

/-- A new device. -/
theorem Lives.new (blockSize size : Nat) (mem : Mem) {n : Nat}
    (hd : SameQueues d.toBdtun (newBdtun blockSize size)) (hj : s.jiffies = n % 2 ^ bitsPerLong)
    (hh : ∀ k : Handle, h.handles.count (d.diskName, k) = 0) :
    Lives (.init blockSize size mem) h subs (List.replicate n tickStep) s d
      (List.replicate n tickStep)
      { World.init blockSize size mem with jiffies := n % 2 ^ bitsPerLong } := by
  obtain ⟨hrun, hhist⟩ := ticks_run blockSize size mem n
  have hnone : (World.init blockSize size mem).dev.incomingBioList ++
      (World.init blockSize size mem).dev.pendingBioList = [] := rfl
  refine ⟨hrun, List.forall₂_same.mpr fun e _ => ⟨rfl, .same _⟩, ⟨hd, fun a ha => ?_, hj.symm⟩,
    ⟨fun f => ?_, fun b => ?_⟩, fun bio hbio => ?_, by rw [hhist]⟩
  · have hempty : d.incomingBioList ++ d.pendingBioList = [] := by
      rw [← hd.incoming, ← hd.pending]
      rfl
    rw [show (s.world d).dev = d.toBdtun from rfl, hempty] at ha
    cases ha
  · rw [hhist, hh, ticks_hist]
    rfl
  · rw [hhist, hh]
    rfl
  · rw [hhist, DeviceHist.submitted, ticks_hist] at hbio
    cases hbio

/-! ## Calls on a device -/

/-- What a call does to entries that are not its own. -/
theorem entries_kept {v : World} {c : Call} (hfile : c.onFile = true) (hk : KmallocOk v c)
    (hr : (tunnelNext v c).2 ≠ .oops) {a : Addr} (ha : (v.entries a).isSome)
    (hfree : ∀ b ∈ c.frees v.dev.dataCurrentBio, a ≠ b) :
    (tunnelNext v c).1.entries a = v.entries a := by
  have heff := effect_of_next v c hr
  generalize tunnelNext v c = res at heff
  cases heff with
  | queued bio new =>
    have hne : a ≠ new := fun heq => by
      rw [heq, hk.1] at ha
      cases ha
    exact Function.update_of_ne hne _ _
  | completed f byte valid entry hentry => exact Function.update_of_ne (hfree _ rfl) _ _
  | _ => rfl

theorem jiffies_kept {v : World} {c : Call} (hfile : c.onFile = true)
    (hr : (tunnelNext v c).2 ≠ .oops) : (tunnelNext v c).1.jiffies = v.jiffies := by
  have heff := effect_of_next v c hr
  generalize tunnelNext v c = res at heff
  cases heff with
  | ticked j => cases hfile
  | _ => rfl

/-- A call on an open file or a submission keeps the open files. -/
theorem files_kept (hi : Hist) {c : Call} (hfile : c.onFile = true) (r : Ret) :
    (hi.record (c, r)).files = hi.files := by
  cases c with
  | chOpen f => cases hfile
  | chRelease f => cases hfile
  | tick => cases hfile
  | submit bio new => rfl
  | mmap f vma fail => rw [record_mmap]
  | read f count valid signal =>
    cases r with
    | ret code out => cases out <;> rfl
    | _ => rfl
  | write f buf valid =>
    cases r with
    | ret code out =>
      simp only [Hist.record]
      split
      · rfl
      · split <;> rfl
    | _ => rfl

/-- What comes in is what is submitted. -/
theorem submitted_grows (hi : Hist) (c : Call) (r : Ret) (name : DiskName) (r' : DriverRet)
    {bio : Bio} (h : bio ∈ (hi.record (c, r)).submitted) :
    bio ∈ hi.submitted ∨ (name, bio) ∈ submittedBios [(.tunnel name c, r')] := by
  cases c with
  | submit new k =>
    rcases List.mem_append.mp h with hold | hnew
    · exact .inl hold
    · rw [List.mem_singleton.mp hnew]
      exact .inr (List.mem_singleton_self _)
  | chOpen f =>
    cases r with
    | ret code out =>
      simp only [Hist.record] at h
      split at h <;> exact .inl h
    | _ => exact .inl h
  | chRelease f => exact .inl h
  | tick => exact .inl h
  | mmap f vma fail =>
    rw [record_mmap] at h
    exact .inl h
  | read f count valid signal =>
    cases r with
    | ret code out => cases out <;> exact .inl h
    | _ => exact .inl h
  | write f buf valid =>
    cases r with
    | ret code out =>
      simp only [Hist.record] at h
      split at h
      · exact .inl h
      · split at h <;> exact .inl h
    | _ => exact .inl h

omit [Kernel] in
theorem AlikeRet.ok {r r' : Ret} (ha : AlikeRet r r') (h : r ≠ .oops) : r' ≠ .oops := by
  cases ha with
  | same => exact h
  | payload code bytes bytes' hlen => simp

/-- A call of the policy of the driver is one of the policy of the device. -/
theorem Lives.allows (hl : Lives start h subs calls s d own w) {c : Call} (hfile : c.onFile = true)
    (hp : mayCall h.handles (subs.map Prod.snd) d.diskName c) : deviceUsers own (.call c) := by
  have hfiles : ∀ f, (d.diskName, (Node.tunnel, f)) ∈ h.handles →
      f ∈ (hist (deviceHist own).calls).files := fun f hmem => by
    rw [← List.count_pos_iff, hl.handles.files]
    exact List.count_pos_iff.mpr hmem
  refine ⟨hl.stays, ?_⟩
  cases c with
  | chOpen f => cases hfile
  | chRelease f => cases hfile
  | tick => cases hfile
  | submit bio new =>
    obtain ⟨⟨⟨n, node, b⟩, hmem, hn, hnode⟩, hfresh⟩ := hp
    simp only at hn hnode
    subst hn hnode
    refine ⟨fun hbio => hfresh (List.mem_map_of_mem (hl.submitted bio hbio)), fun hnone => ?_⟩
    have hcount := hl.handles.blocks b
    rw [hnone] at hcount
    have hpos := List.count_pos_iff.mpr hmem
    rw [← hcount] at hpos
    cases hpos
  | read f count valid signal => exact ⟨hfiles f hp, trivial⟩
  | write f buf valid => exact ⟨hfiles f hp, trivial⟩
  | mmap f vma fail => exact ⟨hfiles f hp, trivial⟩

/-- **A call on the device.** -/
theorem Lives.call (hl : Lives (.init blockSize size mem) h subs calls s d own w) {name : DiskName}
    {c : Call} (hc : Calls s name c d) (hp : mayCall h.handles (subs.map Prod.snd) name c)
    (hown : ∀ a ∈ c.target (s.world d), a ∈ d.bioList) {t : Driver} {d' : Device}
    (hname : d'.diskName = d.diskName) (ht : t.world d' = (tunnelNext (s.world d) c).1)
    (r' : DriverRet) :
    ∃ r w', Lives (.init blockSize size mem) h
      (subs ++ submittedBios [(.tunnel name c, r')])
      (calls ++ [(.call c, (tunnelNext (s.world d) c).2)]) t d' (own ++ [(.call c, r)]) w' := by
  obtain ⟨-, rfl⟩ := find_some hc.found
  obtain ⟨halike, hnear⟩ := hl.near.next hl.nodup hc.onFile hc.ok hown
  have hkmalloc : KmallocOk w c := by
    have hfresh := hc.fresh
    cases c with
    | submit bio new =>
      cases new with
      | none => trivial
      | some new =>
        obtain ⟨hnone, haddr⟩ := hfresh
        refine ⟨?_, haddr⟩
        by_contra hsome
        have hmem := (hl.wf.live new).mp (Option.isSome_iff_ne_none.mpr hsome)
        rw [hl.near.data.incoming, hl.near.data.pending] at hmem
        rw [hl.near.entries new hmem] at hsome
        exact hsome hnone
    | _ => trivial
  refine ⟨_, _, hl.step hname (.call c) (hl.allows hc.onFile hp) ⟨hkmalloc, halike.ok hc.ok⟩ halike
    (by rw [ht]; exact hnear) (hl.handles.call (files_kept _ hc.onFile _)) (fun bio hbio => ?_)
    hl.stays⟩
  rw [submitted_call] at hbio
  rcases submitted_grows _ c _ d.diskName r' hbio with hold | hnew
  · exact List.mem_append_left _ (hl.submitted bio hold)
  · exact List.mem_append_right _ hnew

/-! ## Opens and closes -/

/-- The call on the device. -/
theorem node_call {c : CtrlCall} {name : DiskName} {a : DeviceCall}
    (hn : nodeOf c = some (name, a)) :
    ∃ k : NodeCall, (∀ s, controlNext s c = nodeCall s name k) ∧
      ∀ w : World, deviceNext w a =
        ({ w with dev := (nodeNext w.dev k).1 }, .ret (nodeNext w.dev k).2 .nothing) := by
  unfold nodeOf at hn
  split at hn
  · next n b =>
    obtain ⟨rfl, rfl⟩ := by simpa using hn
    exact ⟨.opens (.block, b), fun _ => rfl, fun _ => rfl⟩
  · next n f =>
    obtain ⟨rfl, rfl⟩ := by simpa using hn
    exact ⟨.opens (.tunnel, f), fun _ => rfl, fun _ => rfl⟩
  · next n b =>
    obtain ⟨rfl, rfl⟩ := by simpa using hn
    exact ⟨.releases (.block, b), fun _ => rfl, fun _ => rfl⟩
  · next n f =>
    obtain ⟨rfl, rfl⟩ := by simpa using hn
    exact ⟨.releases (.tunnel, f), fun _ => rfl, fun _ => rfl⟩
  · cases hn

/-- The open handles of other devices. -/
theorem handles_other (h : CtrlHist) {c : CtrlCall} {r : CtrlRet} {name : DiskName}
    (hn : ∀ n a, nodeOf c = some (n, a) → n ≠ name) (k : Handle) :
    (h.record (c, r)).handles.count (name, k) = h.handles.count (name, k) := by
  cases c with
  | opens n k' =>
    have hne : n ≠ name := by
      obtain ⟨node, b⟩ := k'
      cases node with
      | block => exact hn n _ rfl
      | tunnel => exact hn n _ rfl
    have hpair : (n, k') ≠ (name, k) := fun heq => hne (congrArg Prod.fst heq)
    cases r with
    | ret code =>
      simp only [CtrlHist.record]
      split
      · exact List.count_cons_of_ne hpair
      · rfl
    | _ => rfl
  | releases n k' =>
    have hne : n ≠ name := by
      obtain ⟨node, b⟩ := k'
      cases node with
      | block => exact hn n _ rfl
      | tunnel => exact hn n _ rfl
    have hpair : (name, k) ≠ (n, k') := fun heq => hne (congrArg Prod.fst heq).symm
    exact List.count_erase_of_ne hpair
  | ctrlOpen =>
    cases r with
    | ret code =>
      simp only [CtrlHist.record]
      split <;> rfl
    | _ => rfl
  | ctrlRelease => rfl
  | ctrlWrite count c k' => rfl
  | ctrlRead count valid => rfl
  | addDisk w => rfl

/-- The open files after an open or a close. -/
theorem SameHandles.node {dh : DeviceHist} {name : DiskName} (hs : SameHandles dh h name)
    {c : CtrlCall} {a : DeviceCall} (hn : nodeOf c = some (name, a)) (code : Int) :
    SameHandles (dh.record (a, .ret code .nothing)) (h.record (c, .ret code)) name ∧
      (dh.record (a, .ret code .nothing)).submitted = dh.submitted ∧
      (dh.record (a, .ret code .nothing)).removed = dh.removed := by
  obtain ⟨hfiles, hblocks⟩ := hs
  unfold nodeOf at hn
  split at hn
  · next n b =>
    obtain ⟨rfl, rfl⟩ := by simpa using hn
    simp only [DeviceHist.record, CtrlHist.record]
    split
    · refine ⟨⟨fun f => ?_, fun b' => ?_⟩, rfl, rfl⟩
      · rw [List.count_cons_of_ne (by simp)]
        exact hfiles f
      · simp only [List.count_cons, hblocks]
        simp
    · exact ⟨⟨hfiles, hblocks⟩, rfl, rfl⟩
  · next n f =>
    obtain ⟨rfl, rfl⟩ := by simpa using hn
    by_cases hcode : code = 0
    · refine ⟨⟨fun f' => ?_, fun b => ?_⟩, ?_, rfl⟩
      · simp only [DeviceHist.record, CtrlHist.record, hist_snoc, Hist.record, if_pos hcode,
          List.count_cons, hfiles]
        simp
      · simp only [DeviceHist.record, CtrlHist.record, if_pos hcode]
        rw [List.count_cons_of_ne (by simp)]
        exact hblocks b
      · simp [DeviceHist.record, DeviceHist.submitted, Hist.record, hcode]
    · refine ⟨⟨fun f' => ?_, fun b => ?_⟩, ?_, rfl⟩
      · simp only [DeviceHist.record, CtrlHist.record, hist_snoc, Hist.record, if_neg hcode]
        exact hfiles f'
      · simp only [DeviceHist.record, CtrlHist.record, if_neg hcode]
        exact hblocks b
      · simp [DeviceHist.record, DeviceHist.submitted, Hist.record, hcode]
  · next n b =>
    obtain ⟨rfl, rfl⟩ := by simpa using hn
    refine ⟨⟨fun f => ?_, fun b' => ?_⟩, rfl, rfl⟩
    · simp only [DeviceHist.record, CtrlHist.record]
      rw [List.count_erase_of_ne (by simp)]
      exact hfiles f
    · simp only [DeviceHist.record, CtrlHist.record, List.count_erase, hblocks]
      simp
  · next n f =>
    obtain ⟨rfl, rfl⟩ := by simpa using hn
    refine ⟨⟨fun f' => ?_, fun b => ?_⟩, ?_, rfl⟩
    · simp only [DeviceHist.record, CtrlHist.record, hist_snoc, Hist.record, List.count_erase,
        hfiles]
      simp
    · simp only [DeviceHist.record, CtrlHist.record]
      rw [List.count_erase_of_ne (by simp)]
      exact hblocks b
    · simp [DeviceHist.record, DeviceHist.submitted, Hist.record]
  · cases hn

/-- An open or a close of the driver's users is one of the device's. -/
theorem SameHandles.users {ctr : List (CtrlCall × CtrlRet)} {name : DiskName}
    (hs : SameHandles (deviceHist own) (ctrlHist ctr) name)
    (hstays : (deviceHist own).removed = false) {c : CtrlCall} {a : DeviceCall}
    (hn : nodeOf c = some (name, a)) (hp : ctrlUsers ctr c) : deviceUsers own a := by
  refine ⟨hstays, ?_⟩
  unfold nodeOf at hn
  split at hn
  · next n b =>
    obtain ⟨rfl, rfl⟩ := by simpa using hn
    exact List.count_eq_zero.mp ((hs.blocks b).trans (List.count_eq_zero.mpr hp))
  · next n f =>
    obtain ⟨rfl, rfl⟩ := by simpa using hn
    exact ⟨List.count_eq_zero.mp ((hs.files f).trans (List.count_eq_zero.mpr hp)), trivial⟩
  · next n b =>
    obtain ⟨rfl, rfl⟩ := by simpa using hn
    exact List.count_pos_iff.mp ((List.count_pos_iff.mpr hp).trans_eq (hs.blocks b).symm)
  · next n f =>
    obtain ⟨rfl, rfl⟩ := by simpa using hn
    exact ⟨List.count_pos_iff.mp ((List.count_pos_iff.mpr hp).trans_eq (hs.files f).symm), trivial⟩
  · cases hn

/-- Opens and closes never go wrong. -/
theorem node_ok {c : CtrlCall} {name : DiskName} {a : DeviceCall}
    (hn : nodeOf c = some (name, a)) (w : World) : DeviceOk w a := by
  obtain ⟨k, -, hdevice⟩ := node_call hn
  cases a with
  | call c' =>
    have hret : (tunnelNext w c').2 ≠ .oops := by
      have hsome := congrArg Prod.snd (hdevice w)
      exact fun heq => Ret.noConfusion (heq.symm.trans hsome)
    cases c' with
    | submit bio new =>
      unfold nodeOf at hn
      split at hn <;> simp at hn
    | _ => exact ⟨trivial, hret⟩
  | _ => trivial

/-- **An open or a close** of the device. -/
theorem Lives.node {ctr : List (CtrlCall × CtrlRet)}
    (hl : Lives (.init blockSize size mem) (ctrlHist ctr) subs calls s d own w) {c : CtrlCall}
    {a : DeviceCall} (hn : nodeOf c = some (d.diskName, a)) (hp : ctrlUsers ctr c) {k : NodeCall}
    (hk : ∀ w : World, deviceNext w a =
      ({ w with dev := (nodeNext w.dev k).1 }, .ret (nodeNext w.dev k).2 .nothing))
    (hentries : t.entries = s.entries) (hj : t.jiffies = s.jiffies) :
    ∃ r w', Lives (.init blockSize size mem)
      ((ctrlHist ctr).record (c, .ret (nodeNext d.toBdtun k).2)) subs
      (calls ++ [(a, .ret (nodeNext d.toBdtun k).2 .nothing)]) t
      (d.withBdtun (nodeNext d.toBdtun k).1) (own ++ [(a, r)]) w' := by
  obtain ⟨hcode, hdata⟩ := hl.near.data.node k
  have hret : (deviceNext w a).2 = .ret (nodeNext d.toBdtun k).2 .nothing := by
    rw [hk w]
    exact congrArg (fun code => Ret.ret code .nothing) hcode
  obtain ⟨hhandles, hsubmitted, hremoved⟩ := hl.handles.node hn (nodeNext d.toBdtun k).2
  have hname : (d.withBdtun (nodeNext d.toBdtun k).1).diskName = d.diskName := rfl
  refine ⟨_, _, hl.step hname a (hl.handles.users hl.stays hn hp) (node_ok hn w)
    (by rw [hret]; exact .same _) ?_ (by rw [hret]; exact hhandles)
    (by rw [hret, hsubmitted]; exact hl.submitted) (by rw [hret, hremoved]; exact hl.stays)⟩
  rw [hk w]
  refine ⟨hdata, fun b hb => ?_, hl.near.jiffies.trans hj.symm⟩
  have hold : b ∈ d.incomingBioList ++ d.pendingBioList := by
    rw [← nodeNext_bioList d.toBdtun k]
    exact hb
  show w.entries b = t.entries b
  rw [hentries]
  exact hl.near.entries b hold

/-! ## The other commands -/

/-- A command makes a device with this name. -/
def MakesDevice (name : DiskName) : CtrlCall × CtrlRet → Prop
  | (.ctrlWrite _ (.create n _ _ _) _, .wrote _ _) => n = name
  | _ => False

/-- The story of a name goes on as it was. -/
theorem record_control {name : DiskName} {c : CtrlCall} {r : CtrlRet} (y : Story)
    (hn : ∀ n a, nodeOf c = some (n, a) → n ≠ name) (hcreates : ¬ MakesDevice name (c, r)) :
    Story.record name y (.control c, .control r) = y := by
  unfold Story.record
  split
  · next heq => cases heq
  · next heq => cases heq
  · next count n bs sz cap k l l' heq =>
    obtain ⟨hcall, hret⟩ := by simpa using heq
    subst hcall hret
    exact if_neg hcreates
  · next c' r' _ heq =>
    obtain ⟨hcall, hret⟩ := by simpa using heq
    subst hcall hret
    cases hof : nodeOf c with
    | none => rfl
    | some p =>
      obtain ⟨n, a⟩ := p
      exact if_neg (hn n a hof)
  · rfl

/-- A device as it was before a command, but for its sizes. -/
structure DeviceKept (s : Ctrl) (c : CtrlCall) (r : CtrlRet) (d : Device) : Prop where
  was : ∃ e ∈ s.deviceList, d.diskName = e.diskName ∧ SameQueues e.toBdtun d.toBdtun
  quiet : ¬ MakesDevice d.diskName (c, r)

/-- A device as a command has just made it. -/
structure DeviceMade (s : Ctrl) (c : CtrlCall) (r : CtrlRet) (d : Device) : Prop where
  absent : bdtunFindDevice s.deviceList d.diskName = none
  creates : MakesDevice d.diskName (c, r)
  fresh : ∀ blockSize size, SameQueues d.toBdtun (newBdtun blockSize size)

/-- **What a command does to the devices**: it makes one, or changes sizes, or removes one. -/
theorem control_devices {s : Ctrl} {c : CtrlCall} (hn : nodeOf c = none)
    (hr : (controlNext s c).2 ≠ .oops) :
    ∀ d ∈ (controlNext s c).1.deviceList,
      DeviceKept s c (controlNext s c).2 d ∨ DeviceMade s c (controlNext s c).2 d := by
  have hsame : ∀ {l : List Device} {r : CtrlRet}, l = s.deviceList →
      (∀ name, ¬ MakesDevice name (c, r)) → ∀ d ∈ l, DeviceKept s c r d ∨ DeviceMade s c r d :=
    fun hl hq d hd => .inl ⟨⟨d, by rwa [hl] at hd, rfl, .refl _⟩, hq _⟩
  have hupdate : ∀ {a : Addr} {f : Device → Device} {r : CtrlRet},
      (∀ d, (f d).diskName = d.diskName ∧ SameQueues d.toBdtun (f d).toBdtun) →
      (∀ name, ¬ MakesDevice name (c, r)) →
      ∀ d ∈ (s.update a f).deviceList, DeviceKept s c r d ∨ DeviceMade s c r d := by
    intro a f r hf hq d hd
    obtain ⟨e, he, rfl⟩ := mem_update.mp hd
    refine .inl ⟨⟨e, he, ?_⟩, hq _⟩
    split
    · exact hf e
    · exact ⟨rfl, .refl _⟩
  have heff := ctrl_effect s c hr
  generalize controlNext s c = res at heff ⊢
  cases heff with
  | session hlock => exact hsame rfl fun _ h => h
  | busy hlock => exact hsame rfl fun _ h => h
  | closed => exact hsame rfl fun _ h => h
  | refused count c k code hneg =>
    refine hsame rfl fun name h => ?_
    cases c <;> exact h
  | noDisk count name blocksize size capabilities k new queue major chNum hp hgd h =>
    exact hsame rfl fun _ h => h
  | created count name blocksize size capabilities k new queue major chNum gd w h hc hnew hw =>
    intro d hd
    rcases List.mem_append.mp hd with hold | hnewd
    · refine .inl ⟨⟨d, hold, rfl, .refl _⟩, fun hname => ?_⟩
      have hname' : name = d.diskName := hname
      exact find_none.mp h d hold hname'.symm
    · obtain rfl := List.mem_singleton.mp hnewd
      exact .inr ⟨h, rfl, fun _ _ => ⟨rfl, rfl, rfl, rfl, rfl, rfl⟩⟩
  | resized count name size k dev h =>
    exact hupdate (fun d => ⟨rfl, rfl, rfl, rfl, rfl, rfl, rfl⟩) fun _ h => h
  | notResized count name size k dev h e he =>
    exact hupdate (fun d => ⟨rfl, rfl, rfl, rfl, rfl, rfl, rfl⟩) fun _ h => h
  | removed count name k dev h hgoing hu =>
    exact fun d hd => .inl ⟨⟨d, (List.mem_filter.mp hd).1, rfl, .refl _⟩, fun h => h⟩
  | answered count c k hc buf size response hresponse =>
    refine hsame rfl fun name h => ?_
    cases c with
    | create n bs sz cap => cases hc
    | _ => exact h
  | read count valid size r => exact hsame rfl fun _ h => h
  | opened name k dev hf hgoing =>
    obtain ⟨node, n⟩ := k
    cases node <;> cases hn
  | going name k dev hf hgoing code hcode =>
    obtain ⟨node, n⟩ := k
    cases node <;> cases hn
  | released name k dev hf b hu hgoing hs =>
    obtain ⟨node, n⟩ := k
    cases node <;> cases hn
  | missed name k c hc hf => exact hsame rfl fun name h => by rcases hc with rfl | rfl <;> exact h
  | added w work hw => exact hupdate (fun d => ⟨rfl, .refl _⟩) fun _ h => h

/-! ## Every run -/

/-- Every listed device lives on its own, and the clock is what the story says. -/
structure Isolated (start : World) (tr : List (DriverCall × DriverRet)) (s : Driver) : Prop where
  lives : ∀ d ∈ s.ctrl.deviceList, ∃ own w, Lives start (ctrlHist (controlPart tr))
    (submittedBios tr) (story d.diskName tr).calls s d own w
  clock : ∀ name, s.jiffies = (story name tr).ticks % 2 ^ bitsPerLong

variable {tr : List (DriverCall × DriverRet)}

/-- Only ticks count. -/
theorem record_ticks (name : DiskName) (y : Story) {e : DriverCall × DriverRet}
    (h : e.1 ≠ .tick) : (y.record name e).ticks = y.ticks := by
  unfold Story.record
  split
  · exact absurd rfl h
  · split <;> rfl
  · split <;> rfl
  · split
    · split <;> rfl
    · rfl
  · rfl

theorem Isolated.clock_kept (hi : Isolated start tr s) {c : DriverCall} {r : DriverRet}
    (h : c ≠ .tick) (hj : t.jiffies = s.jiffies) (name : DiskName) :
    t.jiffies = (story name (tr ++ [(c, r)])).ticks % 2 ^ bitsPerLong := by
  rw [story_snoc, record_ticks name _ h, hj]
  exact hi.clock name

/-- The clock ticks for every device. -/
theorem Isolated.tick (hi : Isolated (.init blockSize size mem) tr s) :
    Isolated (.init blockSize size mem) (tr ++ [(.tick, (wholeDriver.next s .tick).2)])
      (wholeDriver.next s .tick).1 := by
  refine ⟨fun d hd => ?_, fun name => ?_⟩
  · obtain ⟨own, w, hl⟩ := hi.lives d hd
    rw [controlPart_other tr (by simp), submittedBios_append, story_snoc]
    have hnone : submittedBios [(.tick, (wholeDriver.next s .tick).2)] = [] := rfl
    rw [hnone, List.append_nil]
    exact ⟨_, _, hl.tick⟩
  · rw [story_snoc]
    show (s.jiffies + 1) % 2 ^ bitsPerLong = ((story name tr).ticks + 1) % 2 ^ bitsPerLong
    rw [hi.clock name, Nat.mod_add_mod]

/-- Nor do pages matter to any. -/
theorem Isolated.pages (hi : Isolated start tr s) (ps : List Place) (bytes : List UInt8) :
    Isolated start (tr ++ [(.pages ps bytes, (wholeDriver.next s (.pages ps bytes)).2)])
      (wholeDriver.next s (.pages ps bytes)).1 := by
  refine ⟨fun d hd => ?_, hi.clock_kept (by simp) rfl⟩
  obtain ⟨own, w, hl⟩ := hi.lives d hd
  rw [controlPart_other tr (by simp), submittedBios_append, story_snoc]
  exact ⟨own, w, hl.other rfl (.refl _) (fun _ _ => rfl) rfl (fun _ => rfl)
    (List.subset_append_left _ _)⟩

omit [Kernel] in
/-- A device with no entry of that address. -/
theorem unlink_same {a : Addr} (ha : a ∉ d.bioList) : SameQueues d.toBdtun (d.unlink a).toBdtun := by
  have hkeep : ∀ l : List Addr, l ⊆ d.bioList → l.filter (fun b => b ≠ a) = l := fun l hsub =>
    List.filter_eq_self.mpr fun b hb => by
      have hne : b ≠ a := fun heq => ha (heq ▸ hsub hb)
      simpa using hne
  exact ⟨hkeep _ (List.subset_append_left _ _), hkeep _ (List.subset_append_right _ _), rfl, rfl,
    rfl, rfl⟩

/-- A completion frees the entry that it works on. -/
theorem frees_target {v : World} {c : Call} {a : Addr} (ha : a ∈ c.frees v.dev.dataCurrentBio) :
    c.target v = some a := by
  unfold Call.frees at ha
  split at ha
  · next f byte valid =>
    have hne : ¬ [byte].length = sizeofLong := fun heq => sizeofLong_ne_one heq.symm
    rw [Call.target, if_neg hne]
    exact ha
  · cases ha

/-- An entry is on the lists of one device. -/
theorem bioList_apart (hnodup : s.linked.Nodup) {e : Device} (hd : d ∈ s.ctrl.deviceList)
    (he : e ∈ s.ctrl.deviceList) (hne : d ≠ e) : d.bioList.Disjoint e.bioList := by
  have hsymm : Std.Symm (Function.onFun List.Disjoint Device.bioList) :=
    ⟨fun _ _ h _ ha hb => h hb ha⟩
  exact (List.nodup_flatMap.mp hnodup).2.forall hd he hne

/-- A call on a device, for that device and the others. -/
theorem Isolated.tunnel (hi : Isolated (.init blockSize size mem) tr s)
    (hrun : Run wholeDriver driverUsers (.init mem') tr s) {name : DiskName} {c : Call}
    (hp : driverUsers tr (.tunnel name c)) (he : wholeDriver.enabled s (.tunnel name c))
    (hkeeps : KeepsOwn s (.tunnel name c)) :
    Isolated (.init blockSize size mem)
      (tr ++ [(.tunnel name c, (wholeDriver.next s (.tunnel name c)).2)])
      (wholeDriver.next s (.tunnel name c)).1 := by
  obtain ⟨dev, hc⟩ := tunnel_calls he
  obtain ⟨hdev, hname⟩ := find_some hc.found
  have hlisted := run_listing hrun
  have hacc := run_accounted hrun
  have hown := hkeeps dev hc.found
  have hfrees : ∀ a ∈ c.frees dev.dataCurrentBio, a ∈ dev.bioList := fun a ha =>
    hown a (frees_target (v := s.world dev) ha)
  refine ⟨fun d' hd' => ?_, hi.clock_kept (by simp) ?_⟩
  · rw [controlPart_other tr (by simp), submittedBios_append, story_snoc, hc.next]
    rw [hc.next] at hd'
    obtain ⟨d, hd, rfl⟩ := List.mem_map.mp hd'
    obtain ⟨own, w, hl⟩ := hi.lives d hd
    by_cases haddr : d.addr = dev.addr
    · obtain rfl := hlisted.eq_of_addr hd hdev haddr
      rw [if_pos rfl]
      have hmine : (story d.diskName tr).record d.diskName
          (.tunnel name c, .tunnel (tunnelNext (s.world d) c).2) =
          { story d.diskName tr with
            calls := (story d.diskName tr).calls ++ [(.call c, (tunnelNext (s.world d) c).2)] } :=
        if_pos hname.symm
      have hworld : (s.put d (tunnelNext (s.world d) c).1 (c.frees d.dataCurrentBio)).world
          (d.withBdtun (tunnelNext (s.world d) c).1.dev) = (tunnelNext (s.world d) c).1 := rfl
      have hsame : (d.withBdtun (tunnelNext (s.world d) c).1.dev).diskName = d.diskName := rfl
      obtain ⟨r, w', hl'⟩ := hl.call hc hp hown hsame hworld
        (.tunnel (tunnelNext (s.world d) c).2)
      rw [hsame, hmine]
      exact ⟨_, w', hl'⟩
    · rw [if_neg haddr]
      have hne : d ≠ dev := fun heq => haddr (congrArg Device.addr heq)
      have hother : name ≠ d.diskName := fun heq =>
        hne (hlisted.eq_of_name hd hdev (heq.symm.trans hname.symm))
      have hapart := bioList_apart hacc.linked_nodup hd hdev hne
      have htheirs : (story d.diskName tr).record d.diskName
          (.tunnel name c, .tunnel (tunnelNext (s.world dev) c).2) = story d.diskName tr :=
        if_neg hother
      have hkept : ((c.frees dev.dataCurrentBio).elim d fun a => d.unlink a).diskName =
          d.diskName ∧ SameQueues d.toBdtun
            ((c.frees dev.dataCurrentBio).elim d fun a => d.unlink a).toBdtun := by
        cases hf : c.frees dev.dataCurrentBio with
        | none => exact ⟨rfl, .refl _⟩
        | some a =>
          refine ⟨rfl, unlink_same fun ha => hapart ha (hfrees a ?_)⟩
          rw [hf]
          rfl
      have hentries : ∀ a ∈ d.bioList, (tunnelNext (s.world dev) c).1.entries a = s.entries a := by
        intro a ha
        have hlive : a ∈ s.linked := List.mem_flatMap.mpr ⟨d, hd, ha⟩
        refine entries_kept (v := s.world dev) hc.onFile hc.fresh hc.ok (hacc.linked_live hlive) ?_
        intro b hb heq
        exact hapart ha (hfrees a (heq ▸ hb))
      rw [hkept.1, htheirs]
      exact ⟨own, w, hl.other hkept.1 hkept.2 hentries (jiffies_kept hc.onFile hc.ok)
        (fun _ => rfl) (List.subset_append_left _ _)⟩
  · rw [hc.next]
    exact jiffies_kept hc.onFile hc.ok

/-- A device that a call of the control plane leaves alone. -/
theorem Isolated.kept (hi : Isolated start tr s) {c : CtrlCall} {r : CtrlRet} {s' : Ctrl}
    {left : List (List Addr)} (hd : d ∈ s.ctrl.deviceList) (hname : d'.diskName = d.diskName)
    (hdata : SameQueues d.toBdtun d'.toBdtun) (hn : ∀ n a, nodeOf c = some (n, a) → n ≠ d.diskName)
    (hquiet : ¬ MakesDevice d.diskName (c, r)) :
    ∃ own w, Lives start (ctrlHist (controlPart (tr ++ [(.control c, .control r)])))
      (submittedBios (tr ++ [(.control c, .control r)]))
      (story d'.diskName (tr ++ [(.control c, .control r)])).calls
      { s with ctrl := s', leftBehind := left } d' own w := by
  obtain ⟨own, w, hl⟩ := hi.lives d hd
  rw [controlPart_control, ctrlHist_snoc, submittedBios_append, story_snoc, hname,
    record_control _ hn hquiet]
  exact ⟨own, w, hl.other hname hdata (fun _ _ => rfl) rfl (fun k => handles_other _ hn k)
    (List.subset_append_left _ _)⟩

/-- Opens and closes make no device. -/
theorem node_creates {c : CtrlCall} {p : DiskName × DeviceCall} (hn : nodeOf c = some p)
    (name : DiskName) (r : CtrlRet) : ¬ MakesDevice name (c, r) := by
  intro h
  cases c with
  | ctrlWrite count c k => cases hn
  | _ => exact h

/-- They are told of in the story of their device. -/
theorem record_node {c : CtrlCall} {name : DiskName} {a : DeviceCall}
    (hn : nodeOf c = some (name, a)) (y : Story) (code : Int) :
    y.record name (.control c, .control (.ret code)) =
      { y with calls := y.calls ++ [(a, .ret code .nothing)] } := by
  cases c with
  | ctrlWrite count c k => cases hn
  | _ => simp [Story.record, hn, CtrlRet.asRet]

/-- An open or a close, for its device and the others. -/
theorem Isolated.node (hi : Isolated (.init blockSize size mem) tr s)
    (hlisted : Listed (ctrlHist (controlPart tr)) s.ctrl) {c : CtrlCall} {name : DiskName}
    {a : DeviceCall} (hn : nodeOf c = some (name, a)) (hp : driverUsers tr (.control c)) :
    Isolated (.init blockSize size mem)
      (tr ++ [(.control c, (wholeDriver.next s (.control c)).2)]) (wholeDriver.next s (.control c)).1 := by
  obtain ⟨k, hcontrol, hdevice⟩ := node_call hn
  have hnext : wholeDriver.next s (.control c) =
      ({ s with
          ctrl := (nodeCall s.ctrl name k).1
          leftBehind := s.leftBehind ++ s.abandons c },
        .control (nodeCall s.ctrl name k).2) := by
    rw [← hcontrol]
    rfl
  have hothers : ∀ d : Device, d.diskName ≠ name →
      ∀ n a', nodeOf c = some (n, a') → n ≠ d.diskName := by
    intro d hne n a' heq
    obtain ⟨rfl, -⟩ := by simpa [hn] using heq
    exact hne.symm
  refine ⟨fun d' hd' => ?_, hi.clock_kept (by simp) rfl⟩
  rw [hnext] at hd' ⊢
  cases hf : bdtunFindDevice s.ctrl.deviceList name with
  | none =>
    have hstate : (nodeCall s.ctrl name k).1 = s.ctrl := by rw [nodeCall, hf]
    have hd : d' ∈ s.ctrl.deviceList := by
      rw [← hstate]
      exact hd'
    exact hi.kept hd rfl (.refl _) (hothers d' (find_none.mp hf d' hd)) (node_creates hn _ _)
  | some dev =>
    obtain ⟨hdev, rfl⟩ := find_some hf
    have hcall : nodeCall s.ctrl dev.diskName k =
        (s.ctrl.update dev.addr fun d => d.withBdtun (nodeNext dev.toBdtun k).1,
          .ret (nodeNext dev.toBdtun k).2) := by
      rw [nodeCall, hf]
    rw [hcall] at hd' ⊢
    obtain ⟨d, hd, rfl⟩ := mem_update.mp hd'
    by_cases haddr : d.addr = dev.addr
    · obtain rfl := hlisted.eq_of_addr hd hdev haddr
      rw [if_pos rfl]
      obtain ⟨own, w, hl⟩ := hi.lives d hd
      obtain ⟨r, w', hl'⟩ := hl.node (t := { s with
        ctrl := s.ctrl.update d.addr fun d' => d'.withBdtun (nodeNext d.toBdtun k).1
        leftBehind := s.leftBehind ++ s.abandons c })
        hn hp hdevice rfl rfl
      have hsame : (d.withBdtun (nodeNext d.toBdtun k).1).diskName = d.diskName := rfl
      have hmine : (story d.diskName tr).record d.diskName
          (.control c, .control (.ret (nodeNext d.toBdtun k).2)) =
          { story d.diskName tr with calls := (story d.diskName tr).calls ++
            [(a, .ret (nodeNext d.toBdtun k).2 .nothing)] } := record_node hn _ _
      rw [controlPart_control, ctrlHist_snoc, submittedBios_append, story_snoc, hsame, hmine]
      rw [show submittedBios [(DriverCall.control c, _)] = [] from rfl,
        List.append_nil]
      exact ⟨_, w', hl'⟩
    · rw [if_neg haddr]
      have hne : d.diskName ≠ dev.diskName := fun heq =>
        haddr (congrArg Device.addr (hlisted.eq_of_name hd hdev heq))
      exact hi.kept hd rfl (.refl _) (hothers d hne) (node_creates hn _ _)

/-- Any other call of the control plane. -/
theorem Isolated.command (hi : Isolated (.init blockSize size mem) tr s)
    (hlisted : Listed (ctrlHist (controlPart tr)) s.ctrl) {c : CtrlCall} (hn : nodeOf c = none)
    (hr : (controlNext s.ctrl c).2 ≠ .oops) :
    Isolated (.init blockSize size mem)
      (tr ++ [(.control c, (wholeDriver.next s (.control c)).2)]) (wholeDriver.next s (.control c)).1 := by
  have hnone : ∀ d : Device, ∀ n a, nodeOf c = some (n, a) → n ≠ d.diskName := by simp [hn]
  refine ⟨fun d hd => ?_, hi.clock_kept (by simp) rfl⟩
  rcases control_devices hn hr d hd with ⟨⟨e, he, hname, hdata⟩, hquiet⟩ | ⟨habsent, hmade, hfresh⟩
  · rw [hname] at hquiet
    exact hi.kept he hname hdata (hnone e) hquiet
  · have hclosed : ∀ k : Handle, (ctrlHist (controlPart tr)).handles.count (d.diskName, k) = 0 := by
      intro k
      refine List.count_eq_zero.mpr fun hmem => ?_
      obtain ⟨e, he, hname⟩ := hlisted.homes _ hmem
      exact find_none.mp habsent e he hname
    have hstory : ((story d.diskName tr).record d.diskName
        (.control c, .control (controlNext s.ctrl c).2)).calls =
        List.replicate (story d.diskName tr).ticks tickStep := by
      generalize (controlNext s.ctrl c).2 = r at hmade
      unfold MakesDevice at hmade
      split at hmade
      · next count n blocksize size capabilities k l l' heq =>
        obtain ⟨rfl, rfl⟩ := by simpa using heq
        simp only [Story.record, if_pos hmade]
      · exact hmade.elim
    have hnext : wholeDriver.next s (.control c) =
        ({ s with
            ctrl := (controlNext s.ctrl c).1
            leftBehind := s.leftBehind ++ s.abandons c },
          .control (controlNext s.ctrl c).2) := rfl
    rw [hnext, controlPart_control, ctrlHist_snoc, submittedBios_append, story_snoc, hstory]
    exact ⟨_, _, .new blockSize size mem (hfresh _ _) (hi.clock _) fun k => by
      rw [handles_other _ (hnone d) k, hclosed]⟩

/-- **Every device lives on its own** while the calls through a cursor keep to their device. -/
theorem run_isolated (blockSize size : Nat) (mem : Mem)
    (hrun : Run (wholeDriver.restrict KeepsOwn) driverUsers (.init mem') tr s) :
    Isolated (.init blockSize size mem) tr s := by
  refine Run.keeps (fun tr s => Isolated (.init blockSize size mem) tr s) ?_ ?_ hrun
  · refine ⟨fun d hd => ?_, fun name => (Nat.zero_mod _).symm⟩
    cases hd
  · intro tr s c hrun hi hp he
    obtain ⟨hok, hkeeps⟩ := he
    cases c with
    | tick => exact hi.tick
    | pages ps bytes => exact hi.pages ps bytes
    | tunnel name c => exact hi.tunnel hrun.unrestrict hp hok hkeeps
    | control c =>
      have hlisted := run_listing hrun.unrestrict
      cases hn : nodeOf c with
      | none => exact hi.command hlisted hn hok.2
      | some p => exact hi.node hlisted hn hp

/-- **Devices do not meet.**  In every run of the driver in which a call that goes through a cursor
finds an entry of its own device, each listed device has, since it was created, gone through the
calls on it as a device that has the kernel for itself: a run of `device` with any sizes and any
pages, the same calls with the same answers up to the bytes of payload reads, to the same state of
its lists, its cursor, its use count and its statistics. -/
theorem devices_isolated (blockSize size : Nat) (mem : Mem)
    (hrun : Run (wholeDriver.restrict KeepsOwn) driverUsers (.init mem') tr s) {d : Device}
    (hd : d ∈ s.ctrl.deviceList) :
    ∃ own w, Run device deviceUsers (.init blockSize size mem) own w ∧
      List.Forall₂ AlikeStep (story d.diskName tr).calls own ∧ Near (s.world d) w := by
  obtain ⟨own, w, hl⟩ := (run_isolated blockSize size mem hrun).lives d hd
  exact ⟨own, w, hl.run, hl.alike, hl.near⟩

end

section
attribute [local instance] linux32

/-- A client of the second device reads its request and sets it. -/
def sampleHome : List DriverCall :=
  samplePair ++ [.control (.opens otherName (.tunnel, 0)),
    .tunnel otherName (.submit sampleWrite (some 16)), .tick, .tunnel otherName (.read 0 32 32 false),
    .tunnel otherName (.write 0 (wordBytes 8 16) 8)]

/-- Its life, with the first device closed and removed meanwhile. -/
def sampleApart : List DriverCall :=
  sampleHome ++ [.control (.releases sampleName (.tunnel, 0)),
    .control (.ctrlWrite 64 (.remove sampleName) sampleAnswers), .tunnel otherName (.write 0 [0] 1)]

theorem devices_isolated_sample :
    ∃ d ∈ (exec wholeDriver (.init fun _ => 0) sampleApart).ctrl.deviceList,
      d.diskName = otherName ∧
      (story otherName (traceOf wholeDriver (.init fun _ => 0) sampleApart)).calls.length = 7 ∧
      ∃ own w, Run device deviceUsers (.init 512 1024 fun _ => 0) own w ∧
        List.Forall₂ AlikeStep
          (story d.diskName (traceOf wholeDriver (.init fun _ => 0) sampleApart)).calls own ∧
        Near ((exec wholeDriver (.init fun _ => 0) sampleApart).world d) w := by
  have hrun := @path_exec _ _ _ (wholeDriver.restrict KeepsOwn) driverUsers [] (.init fun _ => 0)
    sampleApart (by decide +kernel)
  have hlisted : (bdtunFindDevice (exec wholeDriver (.init fun _ => 0) sampleApart).ctrl.deviceList
      otherName).isSome = true := by decide +kernel
  obtain ⟨d, hd⟩ := Option.isSome_iff_exists.mp hlisted
  obtain ⟨hmem, hname⟩ := find_some hd
  exact ⟨d, hmem, hname, by decide +kernel, devices_isolated 512 1024 (fun _ => 0) hrun hmem⟩

end

end BDTun
