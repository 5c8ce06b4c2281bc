import Mathlib.Data.UInt
import BDTun.Sizes
import BDTun.Tunnel

/-!
# The offset in a request header

A bio has its place in sectors of 64 bits; the header has it in bytes, as an
`unsigned long`.  A capacity is a size of 64 bits in sectors, so a sector inside it
is below 2^55, and the product never leaves 64 bits; it may leave 32.

* `size_set`: the capacity and the size that a create or a resize leaves.
* `header_offsets`: a header has the exact offset, inside the device, exactly when
  `unsigned long` has 64 bits or the bio begins within the first 4 GiB.
-/

namespace BDTun

open Machine

/-! ## Sizes a command sets -/

/-- The device and the size of a command that sets one. -/
def CtrlCommand.sets : CtrlCommand → Option (DiskName × UInt64)
  | .create name _ size _ => some (name, size)
  | .resize name size => some (name, size)
  | _ => none

section
variable [Kernel]

/-- The device of a create or resize that was accepted. -/
theorem size_set {s t : Ctrl} {count : Nat} {c : CtrlCommand} {k : Answers} {name : DiskName}
    {size : UInt64} {response : List UInt8} (hsets : c.sets = some (name, size))
    (hok : ctrlWrite s count c k = (t, .wrote count response)) :
    ∃ dev, bdtunFindDevice t.deviceList name = some dev ∧ dev.bdSize = size.toNat ∧
      dev.bdGd.capacity = size.toNat / kernelSectorSize := by
  have heff := write_effect s count c k (by rw [hok]; simp)
  rw [hok] at heff
  generalize hres : (t, CtrlRet.wrote count response) = res at heff
  cases heff with
  | refused count c k code hneg => simp at hres
  | noDisk count name' blocksize size' capabilities k new queue major chNum _ _ _ => simp at hres
  | created count name' blocksize size' capabilities k new queue major chNum gd w hf _ _ _ =>
    obtain ⟨rfl, rfl⟩ := Prod.mk.inj (Option.some.inj hsets)
    obtain ⟨rfl, -⟩ := Prod.mk.inj hres
    exact ⟨_, find_append hf, rfl, rfl⟩
  | resized count name' size' k dev hf =>
    obtain ⟨rfl, rfl⟩ := Prod.mk.inj (Option.some.inj hsets)
    obtain ⟨rfl, -⟩ := Prod.mk.inj hres
    have hname : ∀ d : Device, (d.resized size'.toNat).diskName = d.diskName := fun _ => rfl
    refine ⟨dev.resized size'.toNat, ?_, rfl, rfl⟩
    rw [find_update hname, hf, Option.map_some, if_pos rfl]
  | notResized count name' size' k dev hf e _ => simp at hres
  | removed count name' k dev hf _ _ => cases hsets
  | answered count c k hc buf size' response' _ =>
    cases c with
    | info name' => cases hsets
    | list offset maxdevices => cases hsets
    | _ => cases hc
  | missed name' h c hc hf => rcases hc with hc | hc <;> cases hc

/-! ## Headers -/

/-- A header that is read for a bio, in some state of the tunnel. -/
def Delivers (bio : Bio) (req : Txreq) : Prop :=
  ∃ s t count valid signal code, bdtunchRead s count valid signal = (t, .ret code (.header req)) ∧
    t.delivered = s.delivered ++ [bio]

/-- What a header says of its bio. -/
theorem Delivers.header {bio : Bio} {req : Txreq} (h : Delivers bio req) :
    req.offset = bio.biSector * kernelSectorSize % 2 ^ 64 % 2 ^ bitsPerLong ∧
      req.size = bio.biSize := by
  obtain ⟨s, t, count, valid, signal, code, hread, hdelivered⟩ := h
  unfold bdtunchRead World.readHeader at hread
  split at hread
  · split at hread
    · cases signal <;> simp at hread
    · split at hread
      · simp at hread
      · next entry he =>
        simp only [Prod.mk.injEq, Ret.ret.injEq, Out.header.injEq] at hread
        obtain ⟨rfl, -, rfl⟩ := hread
        rw [World.deliver_delivered, List.append_right_inj, List.singleton_inj] at hdelivered
        subst hdelivered
        exact ⟨rfl, rfl⟩
  · unfold World.readPayload at hread
    split at hread
    · simp at hread
    · split at hread <;> simp at hread

/-- The bio lies inside a capacity, in sectors. -/
def Bio.Inside (bio : Bio) (capacity : Nat) : Prop :=
  bio.biSector * kernelSectorSize + bio.biSize ≤ capacity * kernelSectorSize

instance (bio : Bio) (capacity : Nat) : Decidable (bio.Inside capacity) :=
  inferInstanceAs (Decidable (_ ≤ _))

/-- The header has the place of its bio in bytes, and all of it is on the device. -/
structure ExactOffset (dev : Bdtun) (bio : Bio) (req : Txreq) : Prop where
  offset : req.offset = bio.biSector * kernelSectorSize
  inside : req.offset + req.size ≤ dev.bdSize

/-- The bio begins where an `unsigned long` can say it does. -/
def Bio.Addressable (bio : Bio) : Prop := bitsPerLong = 64 ∨ bio.biSector < 2 ^ 23

theorem offset_eq {bio : Bio} {req : Txreq} (h : Delivers bio req) {size : UInt64}
    (hin : bio.Inside (size.toNat / kernelSectorSize)) :
    bio.biSector * kernelSectorSize + req.size ≤ size.toNat ∧
      req.offset = bio.biSector * kernelSectorSize % 2 ^ bitsPerLong := by
  obtain ⟨hoffset, hsize⟩ := h.header
  have hle : bio.biSector * kernelSectorSize + bio.biSize ≤ size.toNat :=
    hin.trans (Nat.div_mul_le_self _ _)
  have hlt := size.toNat_lt
  refine ⟨by rwa [hsize], ?_⟩
  rw [hoffset, Nat.mod_eq_of_lt (by omega : bio.biSector * kernelSectorSize < 2 ^ 64)]

/-- **Offsets.**  For every size that a create or a resize accepts, and every bio inside the capacity
that it leaves: the header of the bio is exact exactly when `unsigned long` has 64 bits or the bio
begins below sector 2^23.  Two such bios with one offset begin at the same sector, unless their
sectors differ by a multiple of 2^23 and `unsigned long` has 32 bits. -/
theorem header_offsets {s t : Ctrl} {count : Nat} {c : CtrlCommand} {k : Answers} {name : DiskName}
    {size : UInt64} {response : List UInt8} (hsets : c.sets = some (name, size))
    (hok : ctrlWrite s count c k = (t, .wrote count response)) :
    ∃ dev, bdtunFindDevice t.deviceList name = some dev ∧
      ∀ bio req, bio.Inside dev.bdGd.capacity → Delivers bio req →
        (ExactOffset dev.toBdtun bio req ↔ bio.Addressable) ∧
        ∀ bio' req', bio'.Inside dev.bdGd.capacity → Delivers bio' req' →
          ((req.offset = req'.offset → bio.biSector = bio'.biSector) ↔
            bitsPerLong = 64 ∨ bio.biSector = bio'.biSector ∨
              bio.biSector % 2 ^ 23 ≠ bio'.biSector % 2 ^ 23) := by
  obtain ⟨dev, hfind, hsize, hcapacity⟩ := size_set hsets hok
  refine ⟨dev, hfind, ?_⟩
  rw [hcapacity]
  intro bio req hin hreq
  obtain ⟨hend, hoffset⟩ := offset_eq hreq hin
  have hlt := size.toNat_lt
  unfold kernelSectorSize at hend hoffset
  constructor
  · constructor
    · intro hexact
      have hsame := hexact.offset
      unfold kernelSectorSize at hsame
      rcases Kernel.bitsPerLong_eq with hbits | hbits
      · rw [hbits] at hoffset
        exact Or.inr (by omega)
      · exact Or.inl hbits
    · intro haddr
      have hsame : req.offset = bio.biSector * 512 := by
        rcases haddr with hbits | hsector
        · rw [hoffset, hbits, Nat.mod_eq_of_lt (by omega)]
        · rcases Kernel.bitsPerLong_eq with hbits | hbits
          · rw [hoffset, hbits, Nat.mod_eq_of_lt (by omega)]
          · rw [hoffset, hbits, Nat.mod_eq_of_lt (by omega)]
      exact ⟨hsame, by rw [hsize, hsame]; exact hend⟩
  · intro bio' req' hin' hreq'
    obtain ⟨hend', hoffset'⟩ := offset_eq hreq' hin'
    unfold kernelSectorSize at hend' hoffset'
    rw [hoffset, hoffset']
    rcases Kernel.bitsPerLong_eq with hbits | hbits
    · rw [hbits]
      omega
    · rw [hbits]
      omega

/-- Every header of a bio inside a capacity that was accepted is exact. -/
def OffsetsExact : Prop :=
  ∀ (s t : Ctrl) (count : Nat) (c : CtrlCommand) (k : Answers) (name : DiskName) (size : UInt64)
    (response : List UInt8) (dev : Device), c.sets = some (name, size) →
    ctrlWrite s count c k = (t, .wrote count response) →
    bdtunFindDevice t.deviceList name = some dev →
    ∀ bio req, bio.Inside dev.bdGd.capacity → Delivers bio req → ExactOffset dev.toBdtun bio req

end

/-! ## A device of 8 GiB -/

/-- The same kernel on a 32-bit machine. -/
@[reducible] def linux32bit : Kernel := { linux32 with
  bitsPerLong := 32
  bitsPerLong_eq := by decide }

section
attribute [local instance] linux32bit

/-- 512 bytes at 4 GiB. -/
def sampleFar : Bio := ⟨0, 0, 2 ^ 23, 512, 0, [.sector 7]⟩

/-- The far bio is read from the tunnel with offset 0. -/
theorem far_delivered : Delivers sampleFar ⟨16, 0, 0, 512⟩ :=
  ⟨bdtunMakeRequest (World.init 512 (2 ^ 33) fun _ => 0) sampleFar (some 16), _, 16, 16, false, 16,
    rfl, rfl⟩

end

/-- On a 32-bit machine the header of the first block behind 4 GiB has offset 0. -/
theorem offset_wraps : ¬ ∀ K : Kernel, @OffsetsExact K := by
  intro h
  let _ := linux32bit
  have hcreate := h linux32bit .init _ 64 (.create sampleName 512 (2 ^ 33) 0) sampleAnswers sampleName
    (2 ^ 33) [] _ rfl rfl rfl
  have hexact := hcreate sampleFar ⟨16, 0, 0, 512⟩ (by decide) far_delivered
  exact absurd hexact.offset (by decide)

section
attribute [local instance] linux32bit

/-- 512 bytes right before 4 GiB. -/
def sampleNear : Bio := ⟨0, 0, 2 ^ 23 - 1, 512, 0, [.sector 7]⟩

/-- The near bio has its own offset. -/
theorem header_offsets_sample :
    ∃ dev, bdtunFindDevice
        (ctrlWrite .init 64 (.create sampleName 512 (2 ^ 33) 0) sampleAnswers).1.deviceList
        sampleName = some dev ∧
      ExactOffset dev.toBdtun sampleNear ⟨16, 0, 2 ^ 32 - 512, 512⟩ := by
  have hcreate : ctrlWrite .init 64 (.create sampleName 512 (2 ^ 33) 0) sampleAnswers =
    (_, .wrote 64 []) := rfl
  obtain ⟨dev, hfind, hdev⟩ := header_offsets rfl hcreate
  have hnew : newDevice 4096 8192 253 262144000 12288 sampleName 512 (2 ^ 33) 0 = dev :=
    Option.some.inj hfind
  have hin : sampleNear.Inside dev.bdGd.capacity := by rw [← hnew]; decide
  have hdelivered : Delivers sampleNear ⟨16, 0, 2 ^ 32 - 512, 512⟩ :=
    ⟨bdtunMakeRequest (World.init 512 (2 ^ 33) fun _ => 0) sampleNear (some 16), _, 16, 16, false,
      16, rfl, rfl⟩
  exact ⟨dev, hfind, (hdev sampleNear _ hin hdelivered).1.mpr (Or.inr (by decide))⟩

end

end BDTun
