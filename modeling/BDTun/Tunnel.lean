import BDTun.Device

/-!
# The data path of `kernel/bdtun.c`

Submission (`bdtunMakeRequest`) and the operations on the tunnel's character
device (`bdtunchOpen`, `bdtunchRelease`, `bdtunchRead`, `bdtunchWrite`,
`bdtunchMmap`), as functions on `World`.  A call that works on the data-current
bio is the call's body (`readPayload`, `writePayload`, `complete`, `mapEntry`) at
the address in `dataCurrentBio`; where no entry is allocated at an address the
body dereferences, the outcome is `oops`.

Of a payload transfer the model says how much of the user's buffer is accessible.
Header reads, set-current requests and completions go through the user's address
themselves, with the list locks held; their buffers are taken to be accessible here
(the fault is in `Locking`).

The steps of submission (`publish`, `account`) and of completion (`bioEndio`,
`updateIostat`, `listDel`, `kfree`) are functions of their own, so that the
concurrent models can run them one by one.
-/

namespace BDTun

open Memory

section
variable [Kernel]

/-- What a call leaves with its caller. -/
inductive Out
  | nothing
  | header (req : Txreq)
  | data (bytes : List UInt8)
  /-- the pages mapped: virtual address and page frame number -/
  | pages (l : List (Nat × Nat))
deriving DecidableEq

/-- How a call ends: it returns, it sleeps on `reader_queue`, or it dereferences an address where
there is no list entry. -/
inductive Ret
  | ret (code : Int) (out : Out)
  | sleep
  | oops
deriving DecidableEq

/-! ## Submission -/

/-- A list entry is filled and put at the end of the incoming list. -/
@[simps]
def World.publish (s : World) (bio : Bio) (new : Addr) : World :=
  { s with
    entries := Function.update s.entries new (some ⟨bio, s.jiffies⟩)
    dev := { s.dev with incomingBioList := s.dev.incomingBioList ++ [new] } }

/-- One more for one direction. -/
def bump {β : Type} [Add β] (f : Nat → β) (rw : Nat) (n : β) : Nat → β :=
  Function.update f rw (f rw + n)

/-- The accounting at the end of `bdtun_make_request`. -/
@[simps]
def World.account (s : World) (bio : Bio) (rw : Nat) : World :=
  { s with
    dev := { s.dev with
      bdGd := { s.dev.bdGd with
        part0 := { s.dev.bdGd.part0 with
          ios := bump s.dev.bdGd.part0.ios rw 1
          sectors := bump s.dev.bdGd.part0.sectors rw (bioSectors bio)
          inFlight := bump s.dev.bdGd.part0.inFlight rw 1 } } } }

@[simps]
def World.bioEndio (s : World) (bio : Bio) (error : Int) : World :=
  { s with ended := s.ended ++ [(bio, error)] }

/-- `bdtun_make_request`; `new` is the answer of `kmalloc`. -/
def bdtunMakeRequest (s : World) (bio : Bio) (new : Option Addr) : World :=
  match new with
  | none => s.bioEndio bio (-eio)
  | some new => (s.publish bio new).account bio (bioDataDir bio)

/-! ## Open and close -/

/-- `bdtunch_open` -/
def bdtunchOpen (dev : Bdtun) : Bdtun × Int :=
  if dev.removing then (dev, -ebusy)
  else ({ dev with ucnt := dev.ucnt + 1 }, 0)

omit [Kernel] in
theorem bdtunchOpen_of_removing {dev : Bdtun} (h : dev.removing = true) :
    bdtunchOpen dev = (dev, -ebusy) := by
  rw [bdtunchOpen, if_pos h]

omit [Kernel] in
theorem bdtunchOpen_of_not_removing {dev : Bdtun} (h : dev.removing = false) :
    bdtunchOpen dev = ({ dev with ucnt := dev.ucnt + 1 }, 0) := by
  rw [bdtunchOpen, if_neg (by simp [h])]

omit [Kernel] in
/-- Opening touches nothing but the use count. -/
theorem bdtunchOpen_lists (dev : Bdtun) :
    (bdtunchOpen dev).1.incomingBioList = dev.incomingBioList ∧
      (bdtunchOpen dev).1.pendingBioList = dev.pendingBioList := by
  unfold bdtunchOpen
  split <;> exact ⟨rfl, rfl⟩

/-- `list_splice_tail_init(&dev->pending_bio_list, &dev->incoming_bio_list)` -/
@[simps]
def Bdtun.spliceBack (dev : Bdtun) : Bdtun :=
  { dev with
    incomingBioList := dev.incomingBioList ++ dev.pendingBioList
    pendingBioList := [] }

/-- `bdtunch_release` -/
def bdtunchRelease (dev : Bdtun) : Bdtun :=
  { dev.spliceBack with ucnt := dev.ucnt - 1 }

/-! ## Reading -/

/-- The header of the bio of an entry. -/
def header (a : Addr) (entry : BioListEntry) : Txreq where
  id := a
  flags := bdtunTranslateBioRw reqBit v3_2 entry.bio.biRw
  offset := entry.bio.biSector * kernelSectorSize % 2 ^ 64 % 2 ^ bitsPerLong
  size := entry.bio.biSize

/-- The first entry of the incoming list moves to the end of the pending list. -/
@[simps]
def World.deliver (s : World) (a : Addr) (rest : List Addr) (entry : BioListEntry) : World :=
  { s with
    dev := { s.dev with
      incomingBioList := rest
      pendingBioList := s.dev.pendingBioList ++ [a] }
    delivered := s.delivered ++ [entry.bio] }

/-- A header read, one pass of its loop: with an empty list it sleeps and goes round again, unless
a signal is pending. -/
def World.readHeader (s : World) (signal : Bool) : World × Ret :=
  match s.dev.incomingBioList with
  | [] => (s, if signal then .ret (-eintr) .nothing else .sleep)
  | a :: rest =>
    match s.entries a with
    | none => (s, .oops)
    | some entry => (s.deliver a rest entry, .ret bdtunTxreqHeaderSize (.header (header a entry)))

/-- The copy loop of `bdtunch_read` from position `pos` of the user's buffer, whose first `valid`
bytes can be written: the bytes copied, and whether all segments were. -/
def copyOut (mem : Mem) (valid : Nat) : List BioVec → Nat → List UInt8 × Bool
  | [], _ => ([], true)
  | bvec :: rest, pos =>
    if pos + bvec.bvLen ≤ valid then
      let (bytes, ok) := copyOut mem valid rest (pos + bvec.bvLen)
      (gather mem bvec.places ++ bytes, ok)
    else ((gather mem bvec.places).take (valid - pos), false)

/-- The payload branch of `bdtunch_read` for the entry at `a`. -/
def World.readPayload (s : World) (a : Addr) (count valid : Nat) : World × Ret :=
  match s.entries a with
  | none => (s, .oops)
  | some entry =>
    if bioDataDir entry.bio = dirWrite ∧ count = entry.bio.biSize then
      let (bytes, ok) := copyOut s.mem valid entry.bio.segments 0
      (s, .ret (if ok then count else -eio) (.data bytes))
    else (s, .ret (-eio) .nothing)

/-- `bdtunch_read` -/
def bdtunchRead (s : World) (count valid : Nat) (signal : Bool) : World × Ret :=
  if count = bdtunTxreqHeaderSize then s.readHeader signal
  else s.readPayload s.dev.dataCurrentBio count valid

/-! ## Writing -/

/-- `bdtun_update_iostat` -/
@[simps]
def World.updateIostat (s : World) (entry : BioListEntry) : World :=
  let rw := bioDataDir entry.bio
  let duration := (s.jiffies + 2 ^ bitsPerLong - entry.startTime) % 2 ^ bitsPerLong
  { s with
    dev := { s.dev with
      bdGd := { s.dev.bdGd with
        part0 := { s.dev.bdGd.part0 with
          ticks := bump s.dev.bdGd.part0.ticks rw duration
          stamp := s.jiffies
          inFlight := bump s.dev.bdGd.part0.inFlight rw (-1) } } } }

/-- `list_del`: the entry leaves whichever list it is on. -/
@[simps]
def World.listDel (s : World) (a : Addr) : World :=
  { s with
    dev := { s.dev with
      incomingBioList := s.dev.incomingBioList.erase a
      pendingBioList := s.dev.pendingBioList.erase a } }

@[simps]
def World.kfree (s : World) (a : Addr) : World :=
  { s with entries := Function.update s.entries a none }

/-- What a completion does with the entry at `a`. -/
def World.finish (s : World) (a : Addr) (entry : BioListEntry) (error : Int) : World :=
  (((s.bioEndio entry.bio error).updateIostat entry).listDel a).kfree a

/-- The completion branch of `bdtunch_write` for the entry at `a`. -/
def World.complete (s : World) (a : Addr) (byte : UInt8) : World × Ret :=
  match s.entries a with
  | none => (s, .oops)
  | some entry => (s.finish a entry (if byte ≠ 0 then -eio else 0), .ret 1 .nothing)

/-- The copy loop of `bdtunch_write`; a failing `copy_from_user` has copied what it could and
fills the rest of its segment with zeros. -/
def copyIn (buf : List UInt8) (valid : Nat) : List BioVec → Nat → Mem → Mem × Bool
  | [], _, mem => (mem, true)
  | bvec :: rest, pos, mem =>
    if pos + bvec.bvLen ≤ valid then
      copyIn buf valid rest (pos + bvec.bvLen)
        (scatter mem bvec.places ((buf.drop pos).take bvec.bvLen))
    else
      (scatter mem bvec.places
        (((buf.take valid).drop pos) ++ List.replicate (bvec.bvLen - (valid - pos)) 0), false)

/-- The payload branch of `bdtunch_write` for the entry at `a`. -/
def World.writePayload (s : World) (a : Addr) (buf : List UInt8) (valid : Nat) : World × Ret :=
  match s.entries a with
  | none => (s, .oops)
  | some entry =>
    if bioDataDir entry.bio = dirRead ∧ buf.length = entry.bio.biSize then
      let (mem, ok) := copyIn buf valid entry.bio.segments 0 s.mem
      ({ s with mem := mem }, .ret (if ok then buf.length else -eio) .nothing)
    else (s, .ret (-eio) .nothing)

/-- The set-current branch of `bdtunch_write`: any word is taken. -/
@[simps]
def World.setCurrent (s : World) (id : Addr) : World :=
  { s with dev := { s.dev with dataCurrentBio := id } }

/-- `bdtunch_write`; `count` is the length of `buf`, of which `valid` bytes can be read. -/
def bdtunchWrite (s : World) (buf : List UInt8) (valid : Nat) : World × Ret :=
  if buf.length = sizeofLong then (s.setCurrent (wordOf buf), .ret buf.length .nothing)
  else
    match buf with
    | [byte] => s.complete s.dev.dataCurrentBio byte
    | buf => s.writePayload s.dev.dataCurrentBio buf valid

theorem sizeofLong_ne_one : sizeofLong ≠ 1 := by
  rcases sizeofLong_eq with h | h <;> rw [h] <;> decide

theorem bdtunchWrite_set (s : World) (buf : List UInt8) (valid : Nat)
    (h : buf.length = sizeofLong) :
    bdtunchWrite s buf valid = (s.setCurrent (wordOf buf), .ret buf.length .nothing) := by
  unfold bdtunchWrite
  rw [if_pos h]

theorem bdtunchWrite_byte (s : World) (byte : UInt8) (valid : Nat) :
    bdtunchWrite s [byte] valid = s.complete s.dev.dataCurrentBio byte := by
  unfold bdtunchWrite
  rw [if_neg fun h => sizeofLong_ne_one h.symm]

theorem bdtunchWrite_payload (s : World) (buf : List UInt8) (valid : Nat)
    (h : buf.length ≠ sizeofLong) (h₁ : buf.length ≠ 1) :
    bdtunchWrite s buf valid = s.writePayload s.dev.dataCurrentBio buf valid := by
  unfold bdtunchWrite
  rw [if_neg h]
  split
  · next byte => exact absurd rfl h₁
  · rfl

/-! ## Mapping -/

/-- `struct vm_area_struct`, as far as `bdtunch_mmap` looks at it. -/
structure Vma where
  vmStart : Nat
  vmEnd : Nat
  vmPgoff : Nat
  /-- `VM_SHARED` -/
  shared : Bool
deriving DecidableEq

/-- The loop of `remap_pfn_range` calls: one page for each segment; `fail` is the position at which
a call fails, if one does. -/
def remapSegments (start : Nat) (fail : Option Nat) : List BioVec → Nat → Option (List (Nat × Nat))
  | [], _ => some []
  | bvec :: rest, pos =>
    if fail = some pos then none
    else (remapSegments start fail rest (pos + 1)).map fun l =>
      (start + pageSize * pos, bvec.bvPage) :: l

/-- `bdtunch_mmap` for the entry at `a`. -/
def World.mapEntry (s : World) (a : Addr) (vma : Vma) (fail : Option Nat) : World × Ret :=
  match s.entries a with
  | none => (s, .oops)
  | some entry =>
    if vma.vmEnd - vma.vmStart ≠ entry.bio.biVcnt * pageSize then (s, .ret (-eio) .nothing)
    else
      match remapSegments vma.vmStart fail entry.bio.segments 0 with
      | none => (s, .ret (-eio) .nothing)
      | some l => (s, .ret 0 (.pages l))

/-- `bdtunch_mmap` -/
def bdtunchMmap (s : World) (vma : Vma) (fail : Option Nat) : World × Ret :=
  let offset := vma.vmPgoff <<< pageShift % 2 ^ bitsPerLong
  if offset % pageSize ≠ 0 then (s, .ret (-enxio) .nothing)
  else if vma.shared = false then (s, .ret (-einval) .nothing)
  else s.mapEntry s.dev.dataCurrentBio vma fail

end

end BDTun
