import Mathlib.Order.Bounds.Defs
import BDTun.Sizes

/-!
# The geometry of a disk

`bdtun_getgeo` makes up four heads of sixteen sectors, and as many cylinders as its
size has.  What it takes for the size is a product that was meant for another unit,
and the mask it puts on it leaves nothing above bit 5.

* `getgeo_cylinders`: no disk has a cylinder.
* `toInt_geoSize`: the product is a `long` exactly when it is below `2 ^ (bits - 1)`.
* `geometry_covers`: all along a run the cylinders cover the disks exactly when each
  command leaves its device within `GoodGeometry`.
-/

namespace BDTun

open Machine

/-- `struct hd_geometry` -/
structure HdGeometry where
  heads : BitVec 8
  sectors : BitVec 8
  cylinders : BitVec 16
  start : Nat
deriving DecidableEq

section
variable [Kernel]

/-- The `long size` of `bdtun_getgeo`, cut off from a product of two `uint64_t`. -/
def geoSize (dev : Device) : BitVec bitsPerLong :=
  BitVec.ofNat bitsPerLong (dev.bdSize * (dev.bdBlockSize / kernelSectorSize) % 2 ^ 64)

/-- `bdtun_getgeo` -/
def bdtunGetgeo (dev : Device) : HdGeometry where
  cylinders := ((geoSize dev &&& BitVec.ofNat bitsPerLong 0x3f).sshiftRight 6).setWidth 16
  heads := 4
  sectors := 16
  start := 0

/-! ## What is reported -/

/-- The reported geometry is that of the capacity, in cylinders of 64 sectors, if their number is one
of 16 bits; and the size is computed without overflow. -/
structure Device.GeometryCovers (d : Device) : Prop where
  heads : (bdtunGetgeo d).heads = 4
  sectors : (bdtunGetgeo d).sectors = 16
  cylinders : ∀ count < 2 ^ 16, IsGreatest {n | 64 ∣ n ∧ n ≤ d.bdGd.capacity} (count * 64) →
    (bdtunGetgeo d).cylinders.toNat = count
  size : (geoSize d).toInt = (d.bdSize * (d.bdBlockSize / kernelSectorSize) : Nat)

/-- Less than a cylinder, or more of them than 16 bits count; and a product that is a `long`. -/
structure GoodGeometry (blockSize size capacity : Nat) : Prop where
  cylinders : capacity < 64 ∨ 64 * 2 ^ 16 ≤ capacity
  size : size * (blockSize / kernelSectorSize) < 2 ^ (bitsPerLong - 1)

theorem bitsPerLong_ge : 32 ≤ bitsPerLong ∧ bitsPerLong ≤ 64 := by
  rcases Kernel.bitsPerLong_eq with h | h <;> omega

omit [Kernel] in
/-- Six bits of a word are a number below 64, whatever its width. -/
theorem shift_low_bits {w : Nat} (hw : 7 ≤ w) (x : BitVec w) :
    (x &&& BitVec.ofNat w 0x3f).sshiftRight 6 = 0#w := by
  have hpow : 2 ^ 7 ≤ 2 ^ w := Nat.pow_le_pow_right (by decide) hw
  have hlow : (x &&& BitVec.ofNat w 0x3f).toNat < 64 := by
    rw [BitVec.toNat_and, BitVec.toNat_ofNat, Nat.mod_eq_of_lt (by omega)]
    exact Nat.lt_succ_of_le Nat.and_le_right
  have hmsb : (x &&& BitVec.ofNat w 0x3f).msb = false := by
    rw [BitVec.msb_eq_false_iff_two_mul_lt]
    omega
  rw [BitVec.sshiftRight_eq_of_msb_false hmsb]
  apply BitVec.eq_of_toNat_eq
  rw [BitVec.toNat_ushiftRight, Nat.shiftRight_eq_div_pow, Nat.div_eq_of_lt hlow]
  simp

theorem getgeo_cylinders (d : Device) : (bdtunGetgeo d).cylinders = 0 := by
  obtain ⟨hwidth, -⟩ := bitsPerLong_ge
  show ((geoSize d &&& BitVec.ofNat bitsPerLong 0x3f).sshiftRight 6).setWidth 16 = 0
  rw [shift_low_bits (by omega)]
  exact BitVec.setWidth_zero ..

/-- The product is kept exactly when it is a nonnegative `long`. -/
theorem toInt_geoSize (d : Device) :
    (geoSize d).toInt = (d.bdSize * (d.bdBlockSize / kernelSectorSize) : Nat) ↔
      d.bdSize * (d.bdBlockSize / kernelSectorSize) < 2 ^ (bitsPerLong - 1) := by
  obtain ⟨hleast, hmost⟩ := bitsPerLong_ge
  unfold geoSize
  generalize d.bdSize * (d.bdBlockSize / kernelSectorSize) = product
  constructor
  · intro h
    have hlt := BitVec.toInt_lt (x := BitVec.ofNat bitsPerLong (product % 2 ^ 64))
    rw [h] at hlt
    exact_mod_cast hlt
  · intro h
    have hword : 2 ^ bitsPerLong ≤ 2 ^ 64 := Nat.pow_le_pow_right (by decide) hmost
    have hhalf : 2 * 2 ^ (bitsPerLong - 1) = 2 ^ bitsPerLong := by
      rw [← Nat.pow_succ', Nat.succ_eq_add_one, Nat.sub_add_cancel (by omega)]
    have hnat : (BitVec.ofNat bitsPerLong (product % 2 ^ 64)).toNat = product := by
      rw [BitVec.toNat_ofNat, Nat.mod_eq_of_lt (by omega), Nat.mod_eq_of_lt (by omega)]
    rw [BitVec.toInt_eq_toNat_of_lt (by omega), hnat]

omit [Kernel] in
/-- Whole cylinders. -/
theorem isGreatest_multiple {capacity count : Nat} :
    IsGreatest {n | 64 ∣ n ∧ n ≤ capacity} (count * 64) ↔ count = capacity / 64 := by
  constructor
  · rintro ⟨⟨-, hle⟩, hmost⟩
    have hfloor : capacity / 64 * 64 ≤ count * 64 :=
      hmost ⟨Nat.dvd_mul_left 64 _, Nat.div_mul_le_self capacity 64⟩
    omega
  · rintro rfl
    refine ⟨⟨Nat.dvd_mul_left 64 _, Nat.div_mul_le_self capacity 64⟩, ?_⟩
    rintro n ⟨⟨count, rfl⟩, hle⟩
    omega

/-- One device. -/
theorem geometryCovers_iff (d : Device) :
    d.GeometryCovers ↔ GoodGeometry d.bdBlockSize d.bdSize d.bdGd.capacity := by
  have hzero : (bdtunGetgeo d).cylinders.toNat = 0 := by
    rw [getgeo_cylinders]
    rfl
  constructor
  · intro h
    refine ⟨?_, (toInt_geoSize d).mp h.size⟩
    by_cases hfits : d.bdGd.capacity / 64 < 2 ^ 16
    · have hcount := h.cylinders _ hfits (isGreatest_multiple.mpr rfl)
      rw [hzero] at hcount
      omega
    · omega
  · rintro ⟨hcylinders, hsize⟩
    refine ⟨rfl, rfl, ?_, (toInt_geoSize d).mpr hsize⟩
    intro count hfits hgreatest
    obtain rfl := isGreatest_multiple.mp hgreatest
    rw [hzero]
    omega

/-! ## Every device of a run -/

theorem geometryCovers_ofSizes : OfSizes Device.GeometryCovers := by
  intro d e hs h
  obtain ⟨hsize, hblock, -, hgd⟩ := hs
  rw [geometryCovers_iff] at h ⊢
  rw [hsize, hblock, hgd]
  exact h

/-- A command gives its device a size for which the geometry is right: a create that is accepted and
gets its disk, and a resize, of which a failed one leaves the capacity. -/
def KeepsGeometry (s : Ctrl) : CtrlCall → Prop
  | .ctrlWrite count (.create name blocksize size _) k =>
    bdtunCommSize ≤ count → bdtunFindDevice s.deviceList name = none →
      GoodSizes blocksize.toNat size.toNat → k.parts.isSome = true → k.allocDisk.isSome = true →
      GoodGeometry blocksize.toNat size.toNat (size.toNat / kernelSectorSize)
  | .ctrlWrite count (.resize name size) k =>
    bdtunCommSize ≤ count → ∀ dev, bdtunFindDevice s.deviceList name = some dev →
      match k.revalidateDisk with
      | .ok () => GoodGeometry dev.bdBlockSize size.toNat (size.toNat / kernelSectorSize)
      | .error _ => GoodGeometry dev.bdBlockSize dev.bdSize (size.toNat / kernelSectorSize)
  | _ => True

/-- It is the devices that commands set the sizes of. -/
theorem setsTo_geometryCovers (s : Ctrl) (c : CtrlCall) :
    SetsTo Device.GeometryCovers s c ↔ KeepsGeometry s c := by
  cases c with
  | ctrlWrite count c k =>
    cases c with
    | create name blocksize size capabilities =>
      simp only [SetsTo, KeepsGeometry]
      refine forall_congr' fun _ => forall_congr' fun _ => forall_congr' fun _ => ?_
      constructor
      · intro hall hparts hdisk
        obtain ⟨⟨new, queue, major, chNum⟩, hp⟩ := Option.isSome_iff_exists.mp hparts
        obtain ⟨gd, hgd⟩ := Option.isSome_iff_exists.mp hdisk
        exact (geometryCovers_iff _).mp (hall _ _ _ _ _ hp hgd)
      · intro hgood new queue major chNum gd hp hgd
        exact (geometryCovers_iff _).mpr (hgood (by rw [hp]; rfl) (by rw [hgd]; rfl))
    | resize name size =>
      simp only [SetsTo, KeepsGeometry]
      refine forall_congr' fun _ => forall_congr' fun dev => forall_congr' fun _ => ?_
      cases hrev : k.revalidateDisk with
      | ok u => exact geometryCovers_iff (dev.resized size.toNat)
      | error e => exact geometryCovers_iff (dev.setCapacity size.toNat)
    | remove name | info name | list offset maxdevices | other command => exact Iff.rfl
  | ctrlOpen | ctrlRelease | ctrlRead count valid | opens name h | releases name h | addDisk w =>
    exact Iff.rfl

/-- The geometry of all listed devices covers them. -/
def Ctrl.GeometryCovers (s : Ctrl) : Prop := ∀ d ∈ s.deviceList, d.GeometryCovers

/-- What the geometry is expected to be, in every run. -/
def DisksCovered : Prop :=
  ∀ tr s, Run control ctrlUsers .init tr s → s.GeometryCovers

/-- **Geometry.**  All along a run the reported geometry covers every listed device, and its size is
computed without overflow, exactly when each create and each resize in it leaves its device with a
capacity of less than one cylinder or of more than 16 bits count, and with a product of its size and its
sectors a block that is a `long`. -/
theorem geometry_covers {tr : List (CtrlCall × CtrlRet)} {s : Ctrl}
    (hrun : Run control ctrlUsers .init tr s) :
    AllStates control ctrlUsers .init Ctrl.GeometryCovers tr ↔
      AllSteps control ctrlUsers .init KeepsGeometry tr := by
  refine Run.allStates_iff ?_ ?_ hrun
  · intro d hd
    cases hd
  · intro tr s c hrun _ he hs
    have hl := run_listed (fun _ _ h => h) hrun
    exact (every_next geometryCovers_ofSizes hs hl c he.2).trans (setsTo_geometryCovers s c)

end

/-! ## Two disks -/

section
attribute [local instance] linux32

/-- The device of two blocks has less than a cylinder. -/
theorem geometry_covers_sample :
    AllStates control ctrlUsers .init Ctrl.GeometryCovers (traceOf control .init sampleCreate) := by
  have hrun := @path_exec _ _ _ control ctrlUsers [] .init sampleCreate (by decide)
  refine (geometry_covers hrun).mpr (allSteps_exec _ ?_)
  refine ⟨trivial, ?_, trivial⟩
  intro _ _ _ _ _
  exact ⟨Or.inl (by decide), by decide⟩

/-- A device of 64 blocks of 512 bytes is one cylinder, and is reported with none. -/
theorem no_cylinders : ¬ DisksCovered := by
  intro h
  have hrun := @path_exec _ _ _ control ctrlUsers [] .init
    [.ctrlOpen, .ctrlWrite 64 (.create sampleName 512 32768 0) sampleAnswers] (by decide)
  have hcount := (h _ _ hrun _ List.mem_cons_self).cylinders 1 (by decide)
    (isGreatest_multiple.mpr rfl)
  rw [getgeo_cylinders] at hcount
  exact absurd hcount (by decide)

end

end BDTun
