import Mathlib.Logic.Function.Basic
import Mathlib.Tactic.Simps.Basic
import BDTun.Header

/-!
# Bios, list entries, the tunnel device and the memory around it

`World` is everything the data path of one device reads and writes: the fields
of `struct bdtun`, the list entries that are allocated, the pages the bios point
to, and two records of what left the driver (the `bio_endio` calls and the
headers handed out).  A list of `struct list_head` is the list of the addresses
of its entries; an address with no entry behind it cannot be dereferenced.
-/

namespace BDTun

open Memory

/-- The address of a list entry; also the address of its `list` member, its first. -/
abbrev Addr := Nat

/-- A byte of a page: page frame number and offset. -/
abbrev Place := Nat × Nat

abbrev Mem := Place → UInt8

/-- `KERNEL_SECTOR_SIZE` -/
def kernelSectorSize : Nat := 512

section
variable [Kernel]

/-- `struct bio_vec`: a piece of one page. -/
structure BioVec where
  bvPage : Nat
  bvLen : Nat
  bvOffset : Nat
  inPage : bvOffset + bvLen ≤ pageSize
deriving DecidableEq

/-- `struct bio`; `ref` tells one submission from another. -/
structure Bio where
  ref : Nat
  biRw : Nat
  biSector : Nat
  biSize : Nat
  biIdx : Nat
  biIoVec : List BioVec
deriving DecidableEq

instance : LawfulBEq Bio := inferInstance

/-- `bi_vcnt` -/
def Bio.biVcnt (bio : Bio) : Nat := bio.biIoVec.length

/-- What `bio_for_each_segment` visits: from `bi_idx` on. -/
def Bio.segments (bio : Bio) : List BioVec := bio.biIoVec.drop bio.biIdx

/-- The bytes of a segment, in order. -/
def BioVec.places (bvec : BioVec) : List Place :=
  (List.range bvec.bvLen).map fun j => (bvec.bvPage, bvec.bvOffset + j)

/-- The bytes of all segments, in order. -/
def Bio.places (bio : Bio) : List Place := bio.segments.flatMap BioVec.places

/-- `READ` and `WRITE` -/
def dirRead : Nat := 0
def dirWrite : Nat := 1

/-- `bio_data_dir` -/
def bioDataDir (bio : Bio) : Nat := bio.biRw &&& 1

/-- `bio_sectors` -/
def bioSectors (bio : Bio) : Nat := bio.biSize >>> 9

/-- The first sector of a page. -/
def BioVec.sector (page : Nat) : BioVec where
  bvPage := page
  bvLen := kernelSectorSize
  bvOffset := 0
  inPage := by
    have hshift : 2 ^ 12 ≤ 2 ^ pageShift := Nat.pow_le_pow_right (by decide) Kernel.pageShift_ge
    unfold pageSize kernelSectorSize
    omega

@[simp] theorem BioVec.length_places (bvec : BioVec) : bvec.places.length = bvec.bvLen := by
  simp [BioVec.places]

/-- The direction of a bio is what its write flag says. -/
theorem bioDataDir_eq_write (bio : Bio) :
    bioDataDir bio = dirWrite ↔ bio.biRw.testBit (reqBit .reqWrite) = true := by
  rw [Kernel.reqBit_write, Nat.testBit_zero, bioDataDir, Nat.and_one_is_mod, dirWrite]
  simp

theorem bioDataDir_eq_read (bio : Bio) : bioDataDir bio = dirRead ↔ ¬ bioDataDir bio = dirWrite := by
  simp only [bioDataDir, Nat.and_one_is_mod, dirRead, dirWrite]
  omega

/-- `struct bdtun_bio_list_entry`, less its links. -/
structure BioListEntry where
  bio : Bio
  startTime : Nat

/-- The statistics of `struct hd_struct` the driver touches, per direction; `stamp` is the time of
the last `part_round_stats`. -/
structure HdStruct where
  ios : Nat → Nat
  sectors : Nat → Nat
  ticks : Nat → Nat
  inFlight : Nat → Int
  stamp : Nat

/-- `struct gendisk` -/
structure Gendisk where
  capacity : Nat
  part0 : HdStruct

/-- `struct bdtun`, the data path and the use count. -/
structure Bdtun where
  incomingBioList : List Addr
  pendingBioList : List Addr
  /-- `NULL` is 0 -/
  dataCurrentBio : Addr
  removing : Bool
  ucnt : Int
  bdSize : Nat
  bdBlockSize : Nat
  bdNsectors : Nat
  bdGd : Gendisk

structure World where
  dev : Bdtun
  /-- the list entries that are allocated -/
  entries : Addr → Option BioListEntry
  mem : Mem
  jiffies : Nat
  /-- the calls of `bio_endio`, oldest first -/
  ended : List (Bio × Int)
  /-- the bios whose header was handed out, oldest first -/
  delivered : List Bio

/-- The bio of the entry at an address. -/
def World.bioAt (s : World) (a : Addr) : Option Bio := (s.entries a).map BioListEntry.bio

/-- The bios of a list of entries. -/
def World.biosOf (s : World) (l : List Addr) : List Bio := l.filterMap s.bioAt

/-- The bios that were ended. -/
def World.endedBios (s : World) : List Bio := s.ended.map Prod.fst

/-! ## A new device -/

/-- The statistics of a new disk. -/
def HdStruct.zero : HdStruct := ⟨fun _ => 0, fun _ => 0, fun _ => 0, fun _ => 0, 0⟩

/-- The checks of the block size and the size in `bdtun_create_k`. -/
def createCheck (blockSize size : Nat) : Except Int Unit :=
  if blockSize < 512 ∨ blockSize > pageSize then .error (-einval)
  else if blockSize &&& (blockSize - 1) ≠ 0 then .error (-einval)
  else if size % blockSize ≠ 0 then .error (-einval)
  else .ok ()

/-- The device structure `bdtun_create_k` sets up. -/
def newBdtun (blockSize size : Nat) : Bdtun where
  incomingBioList := []
  pendingBioList := []
  dataCurrentBio := 0
  removing := false
  ucnt := 0
  bdSize := size
  bdBlockSize := blockSize
  bdNsectors := size / blockSize
  bdGd := { capacity := size / kernelSectorSize, part0 := HdStruct.zero }

/-- A new device in a kernel with the page contents `mem`. -/
def World.init (blockSize size : Nat) (mem : Mem) : World where
  dev := newBdtun blockSize size
  entries := fun _ => none
  mem := mem
  jiffies := 0
  ended := []
  delivered := []

end

end BDTun
