import BDTun.Commands

/-!
# The four descriptions of a device's size

A device has its size in bytes, in blocks of its own, and as its disk's capacity
in kernel sectors.  A create makes them agree; a resize sets the bytes and the
capacity to whatever it is given, and never the blocks.

* `createCheck_ok`: what the checks of a create let through.
* `every_next`: a property of sizes is kept by a call exactly when the device whose
  sizes it sets has it.
* `sizes_coherent`: the descriptions agree all along a run exactly when each resize gave a
  device the size it had already, or failed within the same sector.
-/

namespace BDTun

open Machine

section
variable [Kernel]

/-- Block sizes and sizes that a create accepts. -/
structure GoodSizes (blockSize size : Nat) : Prop where
  power : blockSize.isPowerOfTwo
  least : 512 ≤ blockSize
  most : blockSize ≤ pageSize
  multiple : blockSize ∣ size

theorem createCheck_ok {blockSize size : Nat} :
    createCheck blockSize size = .ok () ↔ GoodSizes blockSize size := by
  have hpower := fun h : blockSize ≠ 0 => Nat.and_sub_one_eq_zero_iff_isPowerOfTwo h
  constructor
  · intro h
    unfold createCheck at h
    split at h
    · cases h
    · split at h
      · cases h
      · split at h
        · cases h
        · next hrange hpow hmul =>
          have hrange : 512 ≤ blockSize ∧ blockSize ≤ pageSize := by omega
          refine ⟨(hpower (by omega)).mp (by omega), hrange.1, hrange.2, ?_⟩
          exact Nat.dvd_of_mod_eq_zero (by omega)
  · rintro ⟨hpow, hleast, hmost, hmul⟩
    unfold createCheck
    rw [if_neg (by omega), if_neg (not_not.mpr ((hpower (by omega)).mpr hpow)),
      if_neg (not_not.mpr (Nat.mod_eq_zero_of_dvd hmul))]

/-- A good block size is a whole number of kernel sectors. -/
theorem GoodSizes.sectors {blockSize size : Nat} (h : GoodSizes blockSize size) :
    kernelSectorSize ∣ blockSize := by
  obtain ⟨j, hj⟩ := h.power
  have hleast : 2 ^ 9 ≤ 2 ^ j := hj ▸ h.least
  rw [hj]
  exact Nat.pow_dvd_pow 2 ((Nat.pow_le_pow_iff_right (by decide)).mp hleast)

/-! ## Devices, one by one -/

/-- A property of devices that looks at nothing but their sizes. -/
def OfSizes (I : Device → Prop) : Prop := ∀ d e : Device, e.toBdtun.Sizes d.toBdtun → I d → I e

/-- The devices whose sizes a call sets have the property. -/
def SetsTo (I : Device → Prop) (s : Ctrl) : CtrlCall → Prop
  | .ctrlWrite count (.create name blocksize size capabilities) k =>
    bdtunCommSize ≤ count → bdtunFindDevice s.deviceList name = none →
      GoodSizes blocksize.toNat size.toNat → ∀ new queue major chNum gd,
      k.parts = some (new, queue, major, chNum) → k.allocDisk = some gd →
      I (newDevice new queue major chNum gd name blocksize.toNat size.toNat capabilities)
  | .ctrlWrite count (.resize name size) k =>
    bdtunCommSize ≤ count → ∀ dev, bdtunFindDevice s.deviceList name = some dev →
      match k.revalidateDisk with
      | .ok () => I (dev.resized size.toNat)
      | .error _ => I (dev.setCapacity size.toNat)
  | _ => True

variable {h : CtrlHist} {s : Ctrl} {I : Device → Prop}

omit [Kernel] in
/-- After a write to one device all have the property exactly when that one does. -/
theorem every_write (hs : ∀ d ∈ s.deviceList, I d) (hl : Listed h s) {dev : Device}
    (hd : dev ∈ s.deviceList) (f : Device → Device) :
    (∀ d ∈ (s.update dev.addr f).deviceList, I d) ↔ I (f dev) := by
  constructor
  · intro hafter
    refine hafter _ (mem_update.mpr ⟨dev, hd, ?_⟩)
    rw [if_pos rfl]
  · intro hdev d hmem
    obtain ⟨e, he, rfl⟩ := mem_update.mp hmem
    split
    · next ha =>
      rw [hl.eq_of_addr he hd ha]
      exact hdev
    · exact hs e he

omit [Kernel] in
/-- A write to one device that leaves its sizes alone. -/
theorem every_other (hI : OfSizes I) (hs : ∀ d ∈ s.deviceList, I d) (a : Addr)
    {f : Device → Device}
    (hf : ∀ d ∈ s.deviceList, d.addr = a → (f d).toBdtun.Sizes d.toBdtun) :
    ∀ d ∈ (s.update a f).deviceList, I d := by
  intro d hmem
  obtain ⟨e, he, rfl⟩ := mem_update.mp hmem
  split
  · next ha => exact hI e _ (hf e he ha) (hs e he)
  · exact hs e he

/-- A new device is the last of the list. -/
theorem every_create (hs : ∀ d ∈ s.deviceList, I d) (count : Nat) (name : DiskName)
    (blocksize size : UInt64) (capabilities : BitVec 32) (k : Answers)
    (hr : (ctrlWrite s count (.create name blocksize size capabilities) k).2 ≠ .oops) :
    (∀ d ∈ (ctrlWrite s count (.create name blocksize size capabilities) k).1.deviceList, I d) ↔
      SetsTo I s (.ctrlWrite count (.create name blocksize size capabilities) k) := by
  unfold SetsTo
  by_cases hcount : count < bdtunCommSize
  · rw [ctrlWrite_short s _ k hcount]
    refine iff_of_true hs ?_
    intro hlong
    omega
  · rw [ctrlWrite_long s _ k (by omega)] at hr ⊢
    have hcases := create_cases s name blocksize.toNat size.toNat capabilities k
    simp only at hr ⊢
    generalize bdtunCreateK s name blocksize.toNat size.toNat capabilities k = res at hcases hr
    cases hcases with
    | «exists» hf =>
      rw [done_error _ _ (by decide)]
      refine iff_of_true hs ?_
      intro _ hnone
      rw [hnone] at hf
      cases hf
    | invalid hf hc =>
      rw [done_error _ _ (by decide)]
      refine iff_of_true hs ?_
      intro _ _ hgood
      rw [createCheck_ok.mpr hgood] at hc
      cases hc
    | failed hf hc hp code hneg hcode =>
      rw [done_error _ _ hneg]
      refine iff_of_true hs ?_
      intro _ _ _ new queue major chNum gd hsome
      rw [hp] at hsome
      cases hsome
    | noDisk hf hc new queue major chNum hp hgd =>
      rw [done_error _ _ (by decide)]
      refine iff_of_true hs ?_
      intro _ _ _ _ _ _ _ gd _ hsome
      rw [hgd] at hsome
      cases hsome
    | noWork hf hc hp hgd hw s' => exact absurd rfl hr
    | created hf hc new queue major chNum gd w hp hgd hw hnew =>
      rw [done_ok]
      constructor
      · intro hafter _ _ _ new' queue' major' chNum' gd' hp' hgd'
        rw [hp] at hp'
        rw [hgd] at hgd'
        cases hp'
        cases hgd'
        exact hafter _ (List.mem_append_right _ List.mem_cons_self)
      · intro hall d hmem
        rcases List.mem_append.mp hmem with hold | hone
        · exact hs d hold
        · rw [List.mem_singleton.mp hone]
          exact hall (by omega) hf (createCheck_ok.mp hc) _ _ _ _ _ hp hgd

theorem every_resize (hs : ∀ d ∈ s.deviceList, I d) (hl : Listed h s) (count : Nat)
    (name : DiskName) (size : UInt64) (k : Answers) :
    (∀ d ∈ (ctrlWrite s count (.resize name size) k).1.deviceList, I d) ↔
      SetsTo I s (.ctrlWrite count (.resize name size) k) := by
  unfold SetsTo
  by_cases hcount : count < bdtunCommSize
  · rw [ctrlWrite_short s _ k hcount]
    refine iff_of_true hs ?_
    intro hlong
    omega
  · rw [ctrlWrite_long s _ k (by omega)]
    have hcases := resize_cases s name size.toNat k
    simp only
    generalize bdtunResizeK s name size.toNat k = res at hcases
    cases hcases with
    | absent hf =>
      rw [done_error _ _ (by decide), hf]
      refine iff_of_true hs ?_
      intro _ dev hsome
      cases hsome
    | failed dev hf e he =>
      rw [done_error _ _ e.neg, every_write hs hl (find_some hf).1, hf, he]
      constructor
      · intro hdev _ d hsome
        obtain rfl := Option.some.inj hsome
        exact hdev
      · intro hall
        exact hall (by omega) dev rfl
    | resized dev hf hok =>
      rw [done_ok, every_write hs hl (find_some hf).1, hf, hok]
      constructor
      · intro hdev _ d hsome
        obtain rfl := Option.some.inj hsome
        exact hdev
      · intro hall
        exact hall (by omega) dev rfl

/-- A create or a resize. -/
def CtrlCall.setsSizes : CtrlCall → Bool
  | .ctrlWrite _ (.create _ _ _ _) _ => true
  | .ctrlWrite _ (.resize _ _) _ => true
  | _ => false

/-- The other calls. -/
theorem every_quiet {tr : List (CtrlCall × CtrlRet)} (hI : OfSizes I)
    (hs : ∀ d ∈ s.deviceList, I d) (hl : Listed (ctrlHist tr) s) {c : CtrlCall}
    (hr : (controlNext s c).2 ≠ .oops) (hquiet : c.setsSizes = false) :
    ∀ d ∈ (controlNext s c).1.deviceList, I d := by
  have heff := ctrl_effect s c hr
  generalize controlNext s c = res at heff
  cases heff with
  | session hlock => exact hs
  | busy hlock => exact hs
  | closed => exact hs
  | refused count c k code hneg => exact hs
  | noDisk count name blocksize size capabilities k new queue major chNum _ _ _ => exact hs
  | created count name blocksize size capabilities k new queue major chNum gd w _ _ _ _ =>
    cases hquiet
  | resized count name size k dev hf => cases hquiet
  | notResized count name size k dev hf e _ => cases hquiet
  | removed count name k dev hf _ _ => exact fun d hmem => hs d (List.mem_filter.mp hmem).1
  | answered count c k _ buf size response _ => exact hs
  | read count valid size r => exact hs
  | opened name k dev hf _ =>
    refine every_other hI hs _ ?_
    intro d hd ha
    rw [hl.eq_of_addr hd (find_some hf).1 ha]
    exact ⟨rfl, rfl, rfl, rfl⟩
  | going name k dev hf hrem code hcode =>
    obtain ⟨hd, -⟩ := find_some hf
    exact absurd hrem (hl.not_going hd)
  | released name k dev hf b _ _ hsizes =>
    refine every_other hI hs _ ?_
    intro d hd ha
    rw [hl.eq_of_addr hd (find_some hf).1 ha]
    exact hsizes
  | missed name k c _ hf => exact hs
  | added w work hw => exact every_other hI hs work.dev fun _ _ _ => ⟨rfl, rfl, rfl, rfl⟩

/-- **Every call**, where all devices have the property: they all have it again exactly when the one
whose sizes are set does. -/
theorem every_next {tr : List (CtrlCall × CtrlRet)} (hI : OfSizes I)
    (hs : ∀ d ∈ s.deviceList, I d) (hl : Listed (ctrlHist tr) s) (c : CtrlCall)
    (hr : (controlNext s c).2 ≠ .oops) :
    (∀ d ∈ (controlNext s c).1.deviceList, I d) ↔ SetsTo I s c := by
  cases c with
  | ctrlWrite count c k =>
    cases c with
    | create name blocksize size capabilities =>
      exact every_create hs count name blocksize size capabilities k hr
    | resize name size => exact every_resize hs hl count name size k
    | remove name | info name | list offset maxdevices | other command =>
      exact iff_of_true (every_quiet hI hs hl hr rfl) trivial
  | ctrlOpen | ctrlRelease | ctrlRead count valid | opens name h | releases name h | addDisk w =>
    exact iff_of_true (every_quiet hI hs hl hr rfl) trivial

/-! ## Descriptions that agree -/

/-- The descriptions of the size agree. -/
structure Device.Coherent (d : Device) : Prop where
  good : GoodSizes d.bdBlockSize d.bdSize
  blocks : d.bdNsectors * d.bdBlockSize = d.bdSize
  capacity : d.bdGd.capacity * kernelSectorSize = d.bdSize

theorem coherent_ofSizes : OfSizes Device.Coherent := by
  intro d e hs h
  obtain ⟨hsize, hblock, hblocks, hgd⟩ := hs
  exact ⟨by rw [hblock, hsize]; exact h.good, by rw [hblocks, hblock, hsize]; exact h.blocks,
    by rw [hgd, hsize]; exact h.capacity⟩

/-- Every device of the list. -/
def Ctrl.Coherent (s : Ctrl) : Prop := ∀ d ∈ s.deviceList, d.Coherent

theorem newDevice_coherent {blockSize size : Nat} (h : GoodSizes blockSize size)
    (new queue major chNum gd : Nat) (name : DiskName) (capabilities : BitVec 32) :
    (newDevice new queue major chNum gd name blockSize size capabilities).Coherent :=
  ⟨h, Nat.div_mul_cancel h.multiple, Nat.div_mul_cancel (h.sectors.trans h.multiple)⟩

/-- After a resize the blocks are those of the size before. -/
theorem resized_coherent {d : Device} (h : d.Coherent) (size : Nat) :
    (d.resized size).Coherent ↔ size = d.bdSize := by
  constructor
  · intro hafter
    exact hafter.blocks.symm.trans h.blocks
  · rintro rfl
    exact ⟨h.good, h.blocks, Nat.div_mul_cancel (h.good.sectors.trans h.good.multiple)⟩

/-- A resize that fails leaves the capacity it has set. -/
theorem setCapacity_coherent {d : Device} (h : d.Coherent) (size : Nat) :
    (d.setCapacity size).Coherent ↔ size / kernelSectorSize = d.bdSize / kernelSectorSize := by
  have hcap : d.bdGd.capacity = d.bdSize / kernelSectorSize := by
    rw [← h.capacity, Nat.mul_div_cancel _ (by decide)]
  constructor
  · intro hafter
    have hsame : size / kernelSectorSize * kernelSectorSize = d.bdSize := hafter.capacity
    rw [← hsame, Nat.mul_div_cancel _ (by decide)]
  · intro hsame
    refine ⟨h.good, h.blocks, ?_⟩
    show size / kernelSectorSize * kernelSectorSize = d.bdSize
    rw [hsame, ← hcap]
    exact h.capacity

/-- A resize of a listed device gives it the size it has; one that fails, a size of as many whole
sectors. -/
def KeepsSize (s : Ctrl) : CtrlCall → Prop
  | .ctrlWrite count (.resize name size) k =>
    bdtunCommSize ≤ count → ∀ dev, bdtunFindDevice s.deviceList name = some dev →
      match k.revalidateDisk with
      | .ok () => size.toNat = dev.bdSize
      | .error _ => size.toNat / kernelSectorSize = dev.bdSize / kernelSectorSize
  | _ => True

/-- **Every call** but a resize keeps the sizes coherent. -/
theorem Ctrl.Coherent.next {tr : List (CtrlCall × CtrlRet)} (hs : s.Coherent)
    (hl : Listed (ctrlHist tr) s) (c : CtrlCall) (hr : (controlNext s c).2 ≠ .oops) :
    (controlNext s c).1.Coherent ↔ KeepsSize s c := by
  refine (every_next coherent_ofSizes hs hl c hr).trans ?_
  cases c with
  | ctrlWrite count c k =>
    cases c with
    | create name blocksize size capabilities =>
      refine iff_of_true ?_ trivial
      intro _ _ hgood new queue major chNum gd _ _
      exact newDevice_coherent hgood _ _ _ _ _ _ _
    | resize name size =>
      simp only [SetsTo, KeepsSize]
      refine forall_congr' fun _ => forall_congr' fun dev => forall_congr' fun hf => ?_
      have hdev := hs dev (find_some hf).1
      cases hrev : k.revalidateDisk with
      | ok u => exact resized_coherent hdev size.toNat
      | error e => exact setCapacity_coherent hdev size.toNat
    | remove name | info name | list offset maxdevices | other command => exact Iff.rfl
  | ctrlOpen | ctrlRelease | ctrlRead count valid | opens name h | releases name h | addDisk w =>
    exact Iff.rfl

/-- What the sizes of all devices are expected to be, in every run. -/
def SizesAgree : Prop :=
  ∀ tr s, Run control ctrlUsers .init tr s → s.Coherent

/-- **Sizes.**  The descriptions of every listed device agree all along a run exactly when each resize
in it gives a device the size it has already, or fails and asks for as many whole sectors. -/
theorem sizes_coherent {tr : List (CtrlCall × CtrlRet)} (hrun : Run control ctrlUsers .init tr s) :
    AllStates control ctrlUsers .init Ctrl.Coherent tr ↔
      AllSteps control ctrlUsers .init KeepsSize tr := by
  refine Run.allStates_iff ?_ ?_ hrun
  · intro d hd
    cases hd
  · intro tr s c hrun _ he hs
    exact hs.next (run_listed (fun _ _ h => h) hrun) c he.2

end

/-! ## A sample device -/

section
attribute [local instance] linux32

/-- The name "a". -/
def sampleName : DiskName := ⟨[97], by decide, by decide⟩

/-- Every call succeeds. -/
def sampleAnswers : Answers where
  kmallocDevice := some 4096
  blkAllocQueue := some 8192
  registerBlkdev := .ok 253
  allocChrdevRegion := .ok 262144000
  cdevAdd := .ok ()
  deviceCreate := true
  allocDisk := some 12288
  kmallocWork := some 16384
  revalidateDisk := .ok ()
  stack := [1, 2, 3, 4]

/-- A device of two blocks is created. -/
def sampleCreate : List CtrlCall :=
  [.ctrlOpen, .ctrlWrite 64 (.create sampleName 512 1024 0) sampleAnswers]

/-- A device of two blocks is resized to three. -/
theorem resize_breaks_sizes : ¬ SizesAgree := by
  intro h
  have hrun := @path_exec _ _ _ control ctrlUsers [] .init
    (sampleCreate ++ [.ctrlWrite 64 (.resize sampleName 1536) sampleAnswers]) (by decide)
  have hblocks := (h _ _ hrun _ List.mem_cons_self).blocks
  exact absurd hblocks (by decide)

/-- A device is resized to the size it has. -/
theorem sizes_coherent_sample :
    AllStates control ctrlUsers .init Ctrl.Coherent (traceOf control .init
      (sampleCreate ++ [.ctrlWrite 64 (.resize sampleName 1024) sampleAnswers])) := by
  have hrun := @path_exec _ _ _ control ctrlUsers [] .init
    (sampleCreate ++ [.ctrlWrite 64 (.resize sampleName 1024) sampleAnswers]) (by decide)
  refine (sizes_coherent hrun).mpr (allSteps_exec _ ?_)
  refine ⟨trivial, trivial, ?_, trivial⟩
  intro _ dev hdev
  obtain rfl := Option.some.inj hdev
  rfl

end

end BDTun
