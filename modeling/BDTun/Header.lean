import Mathlib.Data.Nat.Bitwise
import BDTun.Lib.FlagWord
import BDTun.Lib.Memory

/-!
# `include/bdtun.h`, and the kernel the module is built for

`Kernel` is what the module takes from the kernel headers: the page size, the
width of `unsigned long`, the bit numbers of the `REQ_` flags and the version
test.  `bdtunTranslateBioRw` turns the kernel's flags into the header's.
-/

namespace BDTun

/-- The request flags `bdtun_translate_bio_rw` translates, without the prefix of either side. -/
inductive ReqFlag
  | reqWrite | reqFailfastDev | reqFailfastTransport | reqFailfastDriver | reqSync | reqMeta
  | reqPrio | reqDiscard | reqNoidle | reqRahead | reqThrottled | reqSorted | reqSoftbarrier
  | reqFua | reqNomerge | reqStarted | reqDontprep | reqQueued | reqElvpriv | reqFailed | reqQuiet
  | reqPreempt | reqAlloced | reqCopyUser | reqFlush | reqFlushSeq | reqIoStat | reqMixedMerge
  | reqSecure
deriving DecidableEq, Repr

/-- The shifts of the `BDTUN_REQ_` constants. -/
def bdtunReqShift : ReqFlag → Nat
  | .reqWrite => 1
  | .reqFailfastDev => 2
  | .reqFailfastTransport => 3
  | .reqFailfastDriver => 4
  | .reqSync => 5
  | .reqMeta => 6
  | .reqPrio => 7
  | .reqDiscard => 8
  | .reqNoidle => 9
  | .reqRahead => 10
  | .reqThrottled => 11
  | .reqSorted => 12
  | .reqSoftbarrier => 13
  | .reqFua => 14
  | .reqNomerge => 15
  | .reqStarted => 16
  | .reqDontprep => 17
  | .reqQueued => 18
  | .reqElvpriv => 19
  | .reqFailed => 20
  | .reqQuiet => 21
  | .reqPreempt => 22
  | .reqAlloced => 23
  | .reqCopyUser => 24
  | .reqFlush => 25
  | .reqFlushSeq => 26
  | .reqIoStat => 27
  | .reqMixedMerge => 28
  | .reqSecure => 29

/-- `BDTUN_REQ_WRITE` and its like. -/
def bdtunReq (f : ReqFlag) : Nat := 1 <<< bdtunReqShift f

/-- The kernel side of the build. -/
class Kernel where
  /-- `PAGE_SHIFT` -/
  pageShift : Nat
  /-- `BITS_PER_LONG`, also the width of a pointer -/
  bitsPerLong : Nat
  /-- the bit number of a `REQ_` flag in `bi_rw` -/
  reqBit : ReqFlag → Nat
  /-- `LINUX_VERSION_CODE >= KERNEL_VERSION(3, 2, 0)` -/
  v3_2 : Bool
  pageShift_ge : 12 ≤ pageShift
  bitsPerLong_eq : bitsPerLong = 32 ∨ bitsPerLong = 64
  reqBit_injective : Function.Injective reqBit
  /-- `WRITE` is `RW_MASK`, which is `REQ_WRITE` -/
  reqBit_write : reqBit .reqWrite = 0

export Kernel (pageShift bitsPerLong reqBit v3_2)

theorem bdtunReqShift_injective : Function.Injective bdtunReqShift := by
  have hleft : Function.LeftInverse (fun n => ReqFlag.ofNat (n - 1)) bdtunReqShift := by
    intro f
    cases f <;> rfl
  exact hleft.injective

/-- Linux 3.2 on a 64-bit machine with 4 KiB pages; its header numbers the flags from 0. -/
@[reducible] def linux32 : Kernel where
  pageShift := 12
  bitsPerLong := 64
  reqBit f := bdtunReqShift f - 1
  v3_2 := true
  pageShift_ge := by decide
  bitsPerLong_eq := by decide
  reqBit_injective f g h := by
    have hpos : ∀ f, 0 < bdtunReqShift f := by intro f; cases f <;> decide
    have hf := hpos f
    have hg := hpos g
    have heq : bdtunReqShift f - 1 = bdtunReqShift g - 1 := h
    exact bdtunReqShift_injective (by omega)
  reqBit_write := rfl

/-! ## Flags -/

/-- The flags in the order of the source; two of them only since 3.2.0. -/
def translatedFlags (v : Bool) : List ReqFlag :=
  List.flatten
    [[.reqWrite, .reqFailfastDev, .reqFailfastTransport, .reqFailfastDriver, .reqSync, .reqMeta],
      if v then [.reqPrio] else [],
      [.reqDiscard, .reqNoidle, .reqRahead, .reqThrottled, .reqSorted, .reqSoftbarrier, .reqFua,
        .reqNomerge, .reqStarted, .reqDontprep, .reqQueued, .reqElvpriv, .reqFailed, .reqQuiet,
        .reqPreempt, .reqAlloced, .reqCopyUser, .reqFlush],
      if v then [.reqFlushSeq] else [],
      [.reqIoStat, .reqMixedMerge, .reqSecure]]

/-- `(rw & REQ_X ? BDTUN_REQ_X : 0)` -/
def translateFlag (req : ReqFlag → Nat) (rw : Nat) (f : ReqFlag) : Nat :=
  if rw &&& 1 <<< req f ≠ 0 then bdtunReq f else 0

/-- `bdtun_translate_bio_rw`, for a numbering `req` of the kernel's flags. -/
def bdtunTranslateBioRw (req : ReqFlag → Nat) (v : Bool) (rw : Nat) : Nat :=
  (translatedFlags v).foldl (fun acc f => acc ||| translateFlag req rw f) 0

theorem and_flag_ne_zero (rw k : Nat) : rw &&& 1 <<< k ≠ 0 ↔ rw.testBit k = true := by
  rw [Nat.one_shiftLeft, Nat.and_two_pow]
  cases rw.testBit k <;> simp

theorem testBit_translateFlag (req : ReqFlag → Nat) (rw : Nat) (f : ReqFlag) (i : Nat) :
    (translateFlag req rw f).testBit i = true ↔ bdtunReqShift f = i ∧ rw.testBit (req f) = true := by
  have hbit := and_flag_ne_zero rw (req f)
  unfold translateFlag bdtunReq
  rw [Nat.one_shiftLeft (bdtunReqShift f)]
  split
  · next h => simp [Nat.testBit_two_pow, hbit.mp h]
  · next h => simp [mt hbit.mpr h]

/-- Bit by bit: the word has the bits of the set flags of the branch and no others. -/
theorem testBit_translate (req : ReqFlag → Nat) (v : Bool) (rw i : Nat) :
    (bdtunTranslateBioRw req v rw).testBit i = true ↔
      ∃ f ∈ translatedFlags v, bdtunReqShift f = i ∧ rw.testBit (req f) = true := by
  unfold bdtunTranslateBioRw
  rw [FlagWord.testBit_foldl_or]
  simp only [Nat.zero_testBit, Bool.false_eq_true, false_or, testBit_translateFlag]

/-- The header's write flag tells the direction of the bio. -/
theorem translate_write (req : ReqFlag → Nat) (v : Bool) (rw : Nat) :
    bdtunTranslateBioRw req v rw &&& bdtunReq .reqWrite ≠ 0 ↔ rw.testBit (req .reqWrite) = true := by
  rw [bdtunReq, and_flag_ne_zero, testBit_translate]
  constructor
  · rintro ⟨f, -, hshift, hbit⟩
    have hf : f = .reqWrite := bdtunReqShift_injective hshift
    rwa [hf] at hbit
  · intro h
    exact ⟨.reqWrite, by simp [translatedFlags], rfl, h⟩

/-! ## Sizes and messages -/

section
variable [Kernel]

/-- `PAGE_SIZE` -/
def pageSize : Nat := 2 ^ pageShift

/-- `sizeof(unsigned long)`, also `sizeof(uintptr_t)` -/
def sizeofLong : Nat := bitsPerLong / 8

/-- `struct bdtun_txreq` -/
structure Txreq where
  id : Nat
  flags : Nat
  offset : Nat
  size : Nat
deriving DecidableEq

/-- `BDTUN_TXREQ_HEADER_SIZE` -/
def bdtunTxreqHeaderSize : Nat := 4 * sizeofLong

theorem pageSize_pos : 0 < pageSize := Nat.two_pow_pos _

theorem sizeofLong_eq : sizeofLong = 4 ∨ sizeofLong = 8 := by
  unfold sizeofLong
  rcases Kernel.bitsPerLong_eq with h | h <;> rw [h] <;> decide

theorem two_pow_bitsPerLong : 2 ^ bitsPerLong = 256 ^ sizeofLong := by
  unfold sizeofLong
  rcases Kernel.bitsPerLong_eq with h | h <;> rw [h] <;> decide

end

/-! ## Error numbers -/

def enoent : Int := 2
def eintr : Int := 4
def eio : Int := 5
def enxio : Int := 6
def enomem : Int := 12
def efault : Int := 14
def ebusy : Int := 16
def eexist : Int := 17
def einval : Int := 22

end BDTun
