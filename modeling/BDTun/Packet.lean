import BDTun.Lib.CString
import BDTun.Commands
import BDTun.Library

/-!
# Command packets, byte by byte

`ctrl_write` takes `struct bdtun_ctrl_command` as it lies in the user's buffer, and
the names in it are read where they lie, 32 bytes that may or may not hold a
terminator.  `Raw.ctrlWrite` works on these bytes, with the C library's string
functions; it is `none` where one of them would leave the name's field or its
destination.  The library's functions build such packets.  `device_create` takes
the name of the character device for a format: what a `%` in it would read is not
modelled, the name is thrown away.

* `raw_cases`: what the commands do with the name in a packet.
* `raw_string`: on a packet whose name ends, it is `ctrlWrite` on the decoded command.
* `raw_endless`: with a name that does not end, all commands but create find no device.
-/

namespace BDTun

open Memory CString

section
variable [Kernel]

/-! ## Layout -/

/-- Where the union of `struct bdtun_ctrl_command` begins. -/
def unionOffset : Nat := if bitsPerLong = 64 then 8 else 4

/-- `BDEVNAME_SIZE` -/
def bdevnameSize : Nat := 32

def bdtunCommCreate : UInt8 := 0
def bdtunCommRemove : UInt8 := 1
def bdtunCommList : UInt8 := 2
def bdtunCommInfo : UInt8 := 3
def bdtunCommResize : UInt8 := 4

/-- `n` bytes of a packet's union. -/
def unionBytes (packet : List UInt8) (offset n : Nat) : List UInt8 :=
  (packet.drop (unionOffset + offset)).take n

def unionWord (packet : List UInt8) (offset n : Nat) : Nat := wordOf (unionBytes packet offset n)

/-- The name in a packet, as its command has it. -/
def packetName (packet : List UInt8) (offset : Nat) : List UInt8 :=
  unionBytes packet offset bdevnameSize

/-- The name in a field, if it ends there. -/
def DiskName.read (field : List UInt8) : Option DiskName :=
  if h : (string 0 field).length ≤ 31 then some ⟨string 0 field, notMem_string field, h⟩ else none

/-- The command in a packet that is long enough, if its name ends. -/
def decode (packet : List UInt8) : Option CtrlCommand :=
  let command := packet.headD 0
  if command = bdtunCommCreate then
    (DiskName.read (packetName packet 20)).map fun name =>
      .create name (UInt64.ofNat (unionWord packet 0 8)) (UInt64.ofNat (unionWord packet 8 8))
        (BitVec.ofNat 32 (unionWord packet 16 4))
  else if command = bdtunCommRemove then (DiskName.read (packetName packet 0)).map .remove
  else if command = bdtunCommInfo then (DiskName.read (packetName packet 0)).map .info
  else if command = bdtunCommList then
    some (.list (unionWord packet 0 sizeofLong) (unionWord packet sizeofLong sizeofLong))
  else if command = bdtunCommResize then
    (DiskName.read (packetName packet 8)).map fun name =>
      .resize name (UInt64.ofNat (unionWord packet 0 8))
  else some (.other command)

/-! ## The driver's functions on packets -/

/-- The arrays on the stack of `bdtun_create_k`, with what is in them. -/
structure CreateFrame where
  charname : List UInt8
  qname : List UInt8
  charname_length : charname.length = bdevnameSize + 5
  qname_length : qname.length = bdevnameSize + 3

/-- `charname` and `qname` -/
def createNames (frame : CreateFrame) (name : List UInt8) : Option (List UInt8 × List UInt8) := do
  let charname ← strncpy 0 frame.charname name bdevnameSize
  let charname ← strcat 0 charname (cLiteral "_tun".toList none)
  let qname ← strncpy 0 frame.qname name bdevnameSize
  let qname ← strcat 0 qname (cLiteral "_q".toList none)
  return (charname, qname)

/-- `strcpy(new->bd_gd->disk_name, name)`, in a gendisk that was cleared. -/
def copyDiskName (name : List UInt8) : Option DiskName :=
  (strcpy 0 (List.replicate 32 0) name).bind DiskName.read

/-- The calls of `bdtun_create_k` from the first `kmalloc` to `alloc_disk`: what they answer and the
ledger they leave, or the error. -/
def createCalls (l : ResourceLedger Resource) (k : Answers) :
    Except (ResourceLedger Resource × Int)
      (Nat × Nat × Nat × Nat × Nat × ResourceLedger Resource) :=
  match k.kmallocDevice with
  | none => .error (l, -enomem)
  | some new =>
  let l := l.take (.deviceStructure new)
  match k.blkAllocQueue with
  | none => .error (outKfree l new, -enomem)
  | some queue =>
  let l := l.take (.requestQueue queue)
  match k.registerBlkdev with
  | .error e => .error (outCleanupQueue l new queue, e.code)
  | .ok major =>
  let l := l.take (.blkMajor major)
  match k.allocChrdevRegion with
  | .error e => .error (outUnregisterBlkdev l new queue major, e.code)
  | .ok chNum =>
  let l := l.take (.chrdevRegion chNum)
  match k.cdevAdd with
  | .error e => .error (outUnregisterChrdevRegion l new queue major chNum, e.code)
  | .ok () =>
  let l := l.take (.cdev new)
  if k.deviceCreate = false then .error (outCdevDel l new queue major chNum, -enomem)
  else
  let l := l.take (.deviceNode chNum)
  match k.allocDisk with
  | none => .error (outCdevDel l new queue major chNum, -enomem)
  | some gd => .ok (new, queue, major, chNum, gd, (l.take (.gendisk gd)).take (.listLink new))

namespace Raw

/-- `bdtun_find_device` -/
def bdtunFindDevice : List Device → List UInt8 → Option (Option Device)
  | [], _ => some none
  | entry :: rest, name =>
    match strcmp 0 (entry.diskName.bytes ++ [0]) name with
    | none => none
    | some true => some (some entry)
    | some false => bdtunFindDevice rest name

/-- `bdtun_create_k` -/
def bdtunCreateK (s : Ctrl) (name : List UInt8) (blockSize size : Nat) (capabilities : BitVec 32)
    (k : Answers) (frame : CreateFrame) : Option (Ctrl × CtrlRet) :=
  match bdtunFindDevice s.deviceList name with
  | none => none
  | some (some _) => some (s, .ret (-eexist))
  | some none =>
  match createCheck blockSize size with
  | .error e => some (s, .ret e)
  | .ok () =>
  match createNames frame name with
  | none => none
  | some _ =>
  match createCalls s.ledger k with
  | .error (l, e) => some ({ s with ledger := l }, .ret e)
  | .ok (new, queue, major, chNum, gd, l) =>
  match copyDiskName name with
  | none => none
  | some diskName =>
    let s :=
      { s with
        deviceList := s.deviceList ++
          [newDevice new queue major chNum gd diskName blockSize size capabilities] }
    match k.kmallocWork with
    | none => some ({ s with ledger := l }, .oops)
    | some w =>
      some ({ s with
        addDiskQ := s.addDiskQ ++ [⟨w, new⟩]
        ledger := (l.take (.workItem w)).take .moduleReference }, .ret 0)

/-- A command on the device of a name.  `rest` is the command as it goes on when the device is found;
looked for by its own name the device is found again. -/
def onDevice (s : Ctrl) (name : List UInt8) (rest : DiskName → Ctrl × CtrlRet) :
    Option (Ctrl × CtrlRet) :=
  match bdtunFindDevice s.deviceList name with
  | none => none
  | some none => some (s, .ret (-enoent))
  | some (some dev) => some (rest dev.diskName)

/-- `ctrl_write` -/
def ctrlWrite (s : Ctrl) (packet : List UInt8) (k : Answers) (frame : CreateFrame) :
    Option (Ctrl × CtrlRet) :=
  let count := packet.length
  if count < 1 then some (s, .ret (-eio))
  else
    let command := packet.headD 0
    if command = bdtunCommCreate then
      if count < bdtunCommSize then some (s, .ret (-eio))
      else
        (bdtunCreateK s (packetName packet 20) (unionWord packet 0 8) (unionWord packet 8 8)
          (BitVec.ofNat 32 (unionWord packet 16 4)) k frame).map (done count)
    else if command = bdtunCommRemove then
      if count < bdtunCommSize then some (s, .ret (-eio))
      else (onDevice s (packetName packet 0) fun name => bdtunRemoveK s name).map (done count)
    else if command = bdtunCommInfo then
      if count < bdtunCommSize then some (s, .ret (-eio))
      else onDevice s (packetName packet 0) fun name => BDTun.ctrlWrite s count (.info name) k
    else if command = bdtunCommList then
      -- no name
      some (BDTun.ctrlWrite s count
        (.list (unionWord packet 0 sizeofLong) (unionWord packet sizeofLong sizeofLong)) k)
    else if command = bdtunCommResize then
      if count < bdtunCommSize then some (s, .ret (-eio))
      else
        (onDevice s (packetName packet 8) fun name =>
          bdtunResizeK s name (unionWord packet 0 8) k).map (done count)
    else some (s, .ret (-eio))

end Raw

/-! ## The library's packets -/

/-- The bytes of a packet whose union holds these. -/
def packetBytes (command : UInt8) (union : List UInt8) : List UInt8 :=
  command :: List.replicate (unionOffset - 1) 0 ++ union ++
    List.replicate (bdtunCommSize - unionOffset - union.length) 0

/-- `strncpy(c.create.name, name, 32)`, in a cleared packet, from a string of the program. -/
def libraryName (name : List UInt8) : Option (List UInt8) :=
  strncpy 0 (List.replicate 32 0) (name ++ [0]) 32

/-- `bdtun_create`: what it writes -/
def bdtunCreate (name : List UInt8) (blocksize size : UInt64) (capabilities : BitVec 32) :
    Option (List UInt8) :=
  (libraryName name).map fun field =>
    packetBytes bdtunCommCreate (wordBytes 8 blocksize.toNat ++ wordBytes 8 size.toNat ++
      wordBytes 4 capabilities.toNat ++ field)

/-- `bdtun_resize` -/
def bdtunResize (name : List UInt8) (size : UInt64) : Option (List UInt8) :=
  (libraryName name).map fun field =>
    packetBytes bdtunCommResize (wordBytes 8 size.toNat ++ field)

/-- `bdtun_remove` -/
def bdtunRemove (name : List UInt8) : Option (List UInt8) :=
  (libraryName name).map (packetBytes bdtunCommRemove)

/-- `bdtun_info`: its write -/
def bdtunInfo (name : List UInt8) : Option (List UInt8) :=
  (libraryName name).map (packetBytes bdtunCommInfo)

/-! ## Names that end, and names that do not -/

omit [Kernel] in
theorem DiskName.read_string (n : DiskName) (rest : List UInt8) :
    DiskName.read (n.bytes ++ 0 :: rest) = some n := by
  have hstring := string_append n.noNul rest
  unfold DiskName.read
  rw [dif_pos (by rw [hstring]; exact n.fits)]
  simp only [hstring]

omit [Kernel] in
/-- A field of 32 bytes has a name that ends in it, or no terminator. -/
theorem field_cases {field : List UInt8} (h : field.length = 32) :
    (∃ (n : DiskName) (rest : List UInt8), field = n.bytes ++ 0 :: rest) ∨ 0 ∉ field := by
  rcases split_or_endless 0 field with ⟨s, rest, rfl, hs⟩ | hnone
  · rw [List.length_append, List.length_cons] at h
    exact Or.inl ⟨⟨s, hs, by omega⟩, rest, rfl⟩
  · exact Or.inr hnone

omit [Kernel] in
theorem DiskName.read_endless {field : List UInt8} (h : field.length = 32) (hnone : 0 ∉ field) :
    DiskName.read field = none := by
  have hall : string 0 field = field := by
    unfold string
    rw [List.takeWhile_eq_self_iff]
    intro b hb
    have hne : b ≠ 0 := fun heq => hnone (heq ▸ hb)
    simpa using hne
  unfold DiskName.read
  rw [dif_neg (by rw [hall]; omega)]

omit [Kernel] in
/-- A device is found by the bytes of its name. -/
theorem Raw.find_string (l : List Device) (n : DiskName) (rest : List UInt8) :
    Raw.bdtunFindDevice l (n.bytes ++ 0 :: rest) = some (BDTun.bdtunFindDevice l n) := by
  induction l with
  | nil => rfl
  | cons d l ih =>
    unfold Raw.bdtunFindDevice
    rw [strcmp_string d.diskName.noNul n.noNul]
    by_cases hd : d.diskName = n
    · simp [BDTun.bdtunFindDevice, hd]
    · have hbytes : d.diskName.bytes ≠ n.bytes := by
        intro heq
        apply hd
        cases hname : d.diskName
        cases n
        simp_all
      simp [hbytes, ih, BDTun.bdtunFindDevice, hd]

omit [Kernel] in
/-- No device has a name that does not end in 32 bytes, and no comparison leaves them. -/
theorem Raw.find_endless (l : List Device) {field : List UInt8} (h : field.length = 32)
    (hnone : 0 ∉ field) : Raw.bdtunFindDevice l field = some none := by
  induction l with
  | nil => rfl
  | cons d l ih =>
    have hfits := d.diskName.fits
    unfold Raw.bdtunFindDevice
    rw [strcmp_endless d.diskName.noNul hnone (by omega)]
    exact ih

omit [Kernel] in
/-- The two names that create makes of a name: they end in their arrays. -/
theorem createNames_string (frame : CreateFrame) (n : DiskName) (rest : List UInt8) :
    ∃ charname qname, createNames frame (n.bytes ++ 0 :: rest) = some (charname, qname) ∧
      (charname.length = bdevnameSize + 5 ∧ 0 ∈ charname ∧
        string 0 charname = n.bytes ++ [95, 116, 117, 110]) ∧
      qname.length = bdevnameSize + 3 ∧ 0 ∈ qname ∧ string 0 qname = n.bytes ++ [95, 113] := by
  have hfits := n.fits
  -- one of the two: an array longer than the name and the suffix, filled and extended
  have hone : ∀ (dst suffix : List UInt8) (room : Nat), dst.length = bdevnameSize + room →
      suffix.length < room → 0 ∉ suffix →
      ∃ dst₁ dst₂, strncpy 0 dst (n.bytes ++ 0 :: rest) bdevnameSize = some dst₁ ∧
        strcat 0 dst₁ (suffix ++ [0]) = some dst₂ ∧ dst₂.length = bdevnameSize + room ∧ 0 ∈ dst₂ ∧
        string 0 dst₂ = n.bytes ++ suffix := by
    intro dst suffix room hlen hroom hsuffix
    unfold bdevnameSize at hlen ⊢
    have hcopy := strncpy_string n.noNul rest dst (n := 32) (by omega) (by omega)
    have hfill : n.bytes ++ List.replicate (32 - n.bytes.length) 0 ++ dst.drop 32 =
        n.bytes ++ 0 :: (List.replicate (31 - n.bytes.length) 0 ++ dst.drop 32) := by
      have hsucc : 32 - n.bytes.length = (31 - n.bytes.length) + 1 := by omega
      rw [hsucc, List.replicate_succ]
      simp
    rw [hfill] at hcopy
    have hcat := strcat_string n.noNul hsuffix []
      (List.replicate (31 - n.bytes.length) 0 ++ dst.drop 32) (by simp; omega)
    refine ⟨_, _, hcopy, hcat, ?_, by simp, ?_⟩
    · simp
      omega
    · rw [← List.append_assoc]
      refine string_append ?_ _
      rw [List.mem_append, not_or]
      exact ⟨n.noNul, hsuffix⟩
  obtain ⟨c₁, c₂, hc₁, hc₂, hclen, hcend, hcstring⟩ :=
    hone frame.charname [95, 116, 117, 110] 5 frame.charname_length (by decide) (by decide)
  obtain ⟨q₁, q₂, hq₁, hq₂, hqlen, hqend, hqstring⟩ :=
    hone frame.qname [95, 113] 3 frame.qname_length (by decide) (by decide)
  have htun : cLiteral "_tun".toList none = [95, 116, 117, 110] ++ [0] := by decide
  have hq : cLiteral "_q".toList none = [95, 113] ++ [0] := by decide
  refine ⟨c₂, q₂, ?_, ⟨hclen, hcend, hcstring⟩, hqlen, hqend, hqstring⟩
  simp only [createNames, htun, hq, hc₁, hc₂, hq₁, hq₂, Option.bind_eq_bind, Option.bind_some,
    Option.pure_def]

omit [Kernel] in
theorem copyDiskName_string (n : DiskName) (rest : List UInt8) :
    copyDiskName (n.bytes ++ 0 :: rest) = some n := by
  have hfits := n.fits
  unfold copyDiskName
  rw [strcpy_string n.noNul rest _ (by simp; omega), Option.bind_some, DiskName.read_string]

omit [Kernel] in
theorem copyDiskName_endless {field : List UInt8} (hnone : 0 ∉ field) :
    copyDiskName field = none := by
  unfold copyDiskName
  rw [strcpy_endless hnone, Option.bind_none]

/-! ## Packets whose name ends -/

/-- What is left of a create after its calls. -/
theorem bdtunCreateK_calls {s : Ctrl} {n : DiskName} {blockSize size : Nat}
    (hfind : BDTun.bdtunFindDevice s.deviceList n = none)
    (hcheck : createCheck blockSize size = .ok ()) (capabilities : BitVec 32) (k : Answers) :
    BDTun.bdtunCreateK s n blockSize size capabilities k =
      match createCalls s.ledger k with
      | .error (l, e) => ({ s with ledger := l }, .ret e)
      | .ok (new, queue, major, chNum, gd, l) =>
        let s :=
          { s with
            deviceList := s.deviceList ++
              [newDevice new queue major chNum gd n blockSize size capabilities] }
        match k.kmallocWork with
        | none => ({ s with ledger := l }, .oops)
        | some w =>
          ({ s with
            addDiskQ := s.addDiskQ ++ [⟨w, new⟩]
            ledger := (l.take (.workItem w)).take .moduleReference }, .ret 0) := by
  unfold BDTun.bdtunCreateK createCalls
  rw [hfind, hcheck]
  rcases k with ⟨new, queue, major, chNum, cdev, node, gd, w, _, _⟩
  cases new with
  | none => rfl
  | some new =>
    cases queue with
    | none => rfl
    | some queue =>
      cases major with
      | error e => rfl
      | ok major =>
        cases chNum with
        | error e => rfl
        | ok chNum =>
          cases cdev with
          | error e => rfl
          | ok u =>
            cases node with
            | false => rfl
            | true =>
              cases gd with
              | none => rfl
              | some gd => cases w <;> rfl

/-- Create, on a name that ends. -/
theorem Raw.create_string (s : Ctrl) (n : DiskName) (rest : List UInt8) (blockSize size : Nat)
    (capabilities : BitVec 32) (k : Answers) (frame : CreateFrame) :
    Raw.bdtunCreateK s (n.bytes ++ 0 :: rest) blockSize size capabilities k frame =
      some (BDTun.bdtunCreateK s n blockSize size capabilities k) := by
  obtain ⟨charname, qname, hnames, -⟩ := createNames_string frame n rest
  unfold Raw.bdtunCreateK
  rw [Raw.find_string]
  cases hfind : BDTun.bdtunFindDevice s.deviceList n with
  | some d =>
    unfold BDTun.bdtunCreateK
    rw [hfind]
    rfl
  | none =>
    cases hcheck : createCheck blockSize size with
    | error e =>
      unfold BDTun.bdtunCreateK
      rw [hfind, hcheck]
      rfl
    | ok u =>
      rw [bdtunCreateK_calls hfind hcheck]
      simp only [hnames, copyDiskName_string]
      cases createCalls s.ledger k with
      | error p => rfl
      | ok p => cases k.kmallocWork <;> rfl

omit [Kernel] in
/-- The other commands, on a name that ends. -/
theorem Raw.onDevice_string (s : Ctrl) (n : DiskName) (tail : List UInt8)
    {rest : DiskName → Ctrl × CtrlRet}
    (habsent : BDTun.bdtunFindDevice s.deviceList n = none → rest n = (s, .ret (-enoent))) :
    Raw.onDevice s (n.bytes ++ 0 :: tail) rest = some (rest n) := by
  unfold Raw.onDevice
  rw [Raw.find_string]
  cases hfind : BDTun.bdtunFindDevice s.deviceList n with
  | none => simp only [habsent hfind]
  | some dev => simp only [(find_some hfind).2]

omit [Kernel] in
theorem Raw.onDevice_endless (s : Ctrl) {field : List UInt8} (h : field.length = 32)
    (hnone : 0 ∉ field) (rest : DiskName → Ctrl × CtrlRet) :
    Raw.onDevice s field rest = some (s, .ret (-enoent)) := by
  unfold Raw.onDevice
  rw [Raw.find_endless _ h hnone]

theorem unionWord_lt (packet : List UInt8) (offset n : Nat) : unionWord packet offset n < 256 ^ n := by
  refine lt_of_lt_of_le (wordOf_lt _) (Nat.pow_le_pow_right (by decide) ?_)
  unfold unionBytes
  rw [List.length_take]
  exact Nat.min_le_left _ _

theorem toNat_unionWord (packet : List UInt8) (offset : Nat) :
    (UInt64.ofNat (unionWord packet offset 8)).toNat = unionWord packet offset 8 :=
  UInt64.toNat_ofNat_of_lt' (unionWord_lt packet offset 8)

/-- The union of a packet has room for a name at these places. -/
theorem length_packetName {packet : List UInt8} (h : bdtunCommSize ≤ packet.length) {offset : Nat}
    (hoffset : offset ≤ 20) : (packetName packet offset).length = 32 := by
  unfold packetName unionBytes bdevnameSize
  rw [List.length_take, List.length_drop]
  unfold bdtunCommSize at h
  unfold unionOffset
  split at h
  · next hbits => rw [if_pos hbits]; omega
  · next hbits => rw [if_neg hbits]; omega

/-- What `ctrl_write` does with a packet that is too short for its command, whatever it is. -/
theorem Raw.ctrlWrite_short (s : Ctrl) {packet : List UInt8} (k : Answers) (frame : CreateFrame)
    (h : packet.length < bdtunCommSize) : Raw.ctrlWrite s packet k frame = some (s, .ret (-eio)) := by
  unfold Raw.ctrlWrite
  simp only [h, if_true, BDTun.ctrlWrite_short s _ k h]
  repeat' split
  all_goals rfl

/-- The commands, by what they do with the name in a packet. -/
inductive Handled (s : Ctrl) (packet : List UInt8) (k : Answers) (frame : CreateFrame) : Prop
  | create (hcommand : packet.headD 0 = bdtunCommCreate)
      (hdecode : decode packet = (DiskName.read (packetName packet 20)).map fun name =>
        .create name (UInt64.ofNat (unionWord packet 0 8)) (UInt64.ofNat (unionWord packet 8 8))
          (BitVec.ofNat 32 (unionWord packet 16 4)))
      (hwrite : Raw.ctrlWrite s packet k frame =
        (Raw.bdtunCreateK s (packetName packet 20) (unionWord packet 0 8) (unionWord packet 8 8)
          (BitVec.ofNat 32 (unionWord packet 16 4)) k frame).map (done packet.length))
  /-- the name is looked for, and nothing more is done if it is not found -/
  | named (offset : Nat) (hoffset : offset ≤ 20) (c : DiskName → CtrlCommand)
      (hdecode : decode packet = (DiskName.read (packetName packet offset)).map c)
      (hwrite : Raw.ctrlWrite s packet k frame =
        Raw.onDevice s (packetName packet offset) fun n => ctrlWrite s packet.length (c n) k)
      (habsent : ∀ n, BDTun.bdtunFindDevice s.deviceList n = none →
        ctrlWrite s packet.length (c n) k = (s, .ret (-enoent)))
  | unnamed (c : CtrlCommand) (hdecode : decode packet = some c)
      (hwrite : Raw.ctrlWrite s packet k frame = some (ctrlWrite s packet.length c k))

omit [Kernel] in
/-- What follows a command on a device can be done with its result. -/
theorem Raw.onDevice_done (s : Ctrl) (name : List UInt8) (rest : DiskName → Ctrl × CtrlRet)
    (count : Nat) : (Raw.onDevice s name rest).map (done count) =
      Raw.onDevice s name fun n => done count (rest n) := by
  unfold Raw.onDevice
  cases Raw.bdtunFindDevice s.deviceList name with
  | none => rfl
  | some found =>
    cases found with
    | none => rfl
    | some dev => rfl

/-- **Every packet** that is long enough. -/
theorem raw_cases (s : Ctrl) {packet : List UInt8} (k : Answers) (frame : CreateFrame)
    (h : bdtunCommSize ≤ packet.length) : Handled s packet k frame := by
  have hpos := bdtunCommSize_pos
  have hone : ¬ packet.length < 1 := by omega
  have hlong : ¬ packet.length < bdtunCommSize := by omega
  by_cases h₀ : packet.headD 0 = bdtunCommCreate
  · refine .create h₀ ?_ ?_
    · unfold decode
      rw [if_pos h₀]
    · unfold Raw.ctrlWrite
      simp only [if_neg hone, if_neg hlong, if_pos h₀]
  · by_cases h₁ : packet.headD 0 = bdtunCommRemove
    · refine .named 0 (by decide) .remove ?_ ?_ fun n hn => ?_
      · unfold decode
        rw [if_neg h₀, if_pos h₁]
      · unfold Raw.ctrlWrite
        simp only [if_neg hone, if_neg hlong, if_neg h₀, if_pos h₁, Raw.onDevice_done,
          ctrlWrite_long s _ k h]
      · rw [ctrlWrite_long s _ k h]
        simp only [bdtunRemoveK, hn, done_error _ _ (show -enoent < 0 by decide)]
    · by_cases h₃ : packet.headD 0 = bdtunCommInfo
      · refine .named 0 (by decide) .info ?_ ?_ fun n hn => ?_
        · unfold decode
          rw [if_neg h₀, if_neg h₁, if_pos h₃]
        · unfold Raw.ctrlWrite
          simp only [if_neg hone, if_neg hlong, if_neg h₀, if_neg h₁, if_pos h₃]
        · rw [ctrlWrite_long s _ k h]
          simp only [bdtunInfoK, hn]
      · by_cases h₂ : packet.headD 0 = bdtunCommList
        · refine .unnamed (.list (unionWord packet 0 sizeofLong)
            (unionWord packet sizeofLong sizeofLong)) ?_ ?_
          · unfold decode
            rw [if_neg h₀, if_neg h₁, if_neg h₃, if_pos h₂]
          · unfold Raw.ctrlWrite
            simp only [if_neg hone, if_neg h₀, if_neg h₁, if_neg h₃, if_pos h₂]
        · by_cases h₄ : packet.headD 0 = bdtunCommResize
          · refine .named 8 (by decide)
              (fun n => .resize n (UInt64.ofNat (unionWord packet 0 8))) ?_ ?_ fun n hn => ?_
            · unfold decode
              rw [if_neg h₀, if_neg h₁, if_neg h₃, if_neg h₂, if_pos h₄]
            · unfold Raw.ctrlWrite
              simp only [if_neg hone, if_neg hlong, if_neg h₀, if_neg h₁, if_neg h₃, if_neg h₂,
                if_pos h₄, Raw.onDevice_done, ctrlWrite_long s _ k h, toNat_unionWord]
            · rw [ctrlWrite_long s _ k h]
              simp only [bdtunResizeK, hn, done_error _ _ (show -enoent < 0 by decide)]
          · refine .unnamed (.other (packet.headD 0)) ?_ ?_
            · unfold decode
              rw [if_neg h₀, if_neg h₁, if_neg h₃, if_neg h₂, if_neg h₄]
            · unfold Raw.ctrlWrite
              simp only [if_neg hone, if_neg h₀, if_neg h₁, if_neg h₃, if_neg h₂, if_neg h₄,
                ctrlWrite_long s _ k h]

/-- The name that is decoded from a packet is the string in its field. -/
theorem read_packetName {packet : List UInt8} (h : bdtunCommSize ≤ packet.length) {offset : Nat}
    (hoffset : offset ≤ 20) {n : DiskName} (hn : DiskName.read (packetName packet offset) = some n) :
    ∃ rest, packetName packet offset = n.bytes ++ 0 :: rest := by
  have hlen := length_packetName h hoffset
  rcases field_cases hlen with ⟨n', rest, hfield⟩ | hnone
  · rw [hfield, DiskName.read_string] at hn
    exact ⟨rest, by rw [hfield, Option.some.inj hn]⟩
  · rw [DiskName.read_endless hlen hnone] at hn
    cases hn

/-- A field from which no name is decoded has no terminator. -/
theorem read_packetName_none {packet : List UInt8} (h : bdtunCommSize ≤ packet.length) {offset : Nat}
    (hoffset : offset ≤ 20) (hn : DiskName.read (packetName packet offset) = none) :
    0 ∉ packetName packet offset := by
  rcases field_cases (length_packetName h hoffset) with ⟨n', rest, hfield⟩ | hnone
  · rw [hfield, DiskName.read_string] at hn
    cases hn
  · exact hnone

/-- **Refinement.**  A packet that is long enough and whose name ends is its command. -/
theorem raw_string (s : Ctrl) {packet : List UInt8} (k : Answers) (frame : CreateFrame)
    (h : bdtunCommSize ≤ packet.length) {c : CtrlCommand} (hc : decode packet = some c) :
    Raw.ctrlWrite s packet k frame = some (ctrlWrite s packet.length c k) := by
  cases raw_cases s k frame h with
  | create hcommand hdecode hwrite =>
    rw [hdecode] at hc
    obtain ⟨n, hn, rfl⟩ := Option.map_eq_some_iff.mp hc
    obtain ⟨rest, hfield⟩ := read_packetName h (by decide) hn
    rw [hwrite, hfield, Raw.create_string, Option.map_some, ctrlWrite_long s _ k h]
    simp only [toNat_unionWord]
  | named offset hoffset c' hdecode hwrite habsent =>
    rw [hdecode] at hc
    obtain ⟨n, hn, rfl⟩ := Option.map_eq_some_iff.mp hc
    obtain ⟨rest, hfield⟩ := read_packetName h hoffset hn
    rw [hwrite, hfield]
    exact Raw.onDevice_string s n rest (habsent n)
  | unnamed c' hdecode hwrite =>
    rw [hdecode] at hc
    obtain rfl := Option.some.inj hc
    exact hwrite

/-- The packet asks for a device with sizes that pass the checks. -/
def Creates (packet : List UInt8) : Prop :=
  packet.headD 0 = bdtunCommCreate ∧
    createCheck (unionWord packet 0 8) (unionWord packet 8 8) = .ok ()

instance (packet : List UInt8) : Decidable (Creates packet) :=
  inferInstanceAs (Decidable (_ ∧ createCheck _ _ = _))

/-- A packet whose name does not end is refused, unless it creates. -/
theorem raw_endless (s : Ctrl) {packet : List UInt8} (k : Answers) (frame : CreateFrame)
    (h : bdtunCommSize ≤ packet.length) (hc : decode packet = none) (hnot : ¬ Creates packet) :
    ∃ code < 0, Raw.ctrlWrite s packet k frame = some (s, .ret code) := by
  cases raw_cases s k frame h with
  | create hcommand hdecode hwrite =>
    rw [hdecode] at hc
    have hnone := read_packetName_none h (by decide) (Option.map_eq_none_iff.mp hc)
    rw [hwrite]
    unfold Raw.bdtunCreateK
    rw [Raw.find_endless _ (length_packetName h (by decide)) hnone]
    cases hcheck : createCheck (unionWord packet 0 8) (unionWord packet 8 8) with
    | error e =>
      obtain rfl := createCheck_error hcheck
      exact ⟨-einval, by decide, by rw [Option.map_some, done_error _ _ (by decide)]⟩
    | ok u => exact absurd ⟨hcommand, hcheck⟩ hnot
  | named offset hoffset c' hdecode hwrite habsent =>
    rw [hdecode] at hc
    have hnone := read_packetName_none h hoffset (Option.map_eq_none_iff.mp hc)
    rw [hwrite, Raw.onDevice_endless s (length_packetName h hoffset) hnone]
    exact ⟨-enoent, by decide, rfl⟩
  | unnamed c' hdecode hwrite =>
    rw [hdecode] at hc
    cases hc

/-! ## What the library writes -/

omit [Kernel] in
/-- The library fills a name's field with the name and zeros, as far as it goes. -/
theorem libraryName_eq {name : List UInt8} (hname : 0 ∉ name) :
    libraryName name = some ((name ++ List.replicate 32 0).take 32) := by
  unfold libraryName
  by_cases hlong : 32 ≤ name.length
  · rw [strncpy_long hname [0] _ hlong (by simp), List.take_append_of_le_length hlong]
    simp
  · have hshort : name.length ≤ 32 := by omega
    have hfill : min (32 - name.length) 32 = 32 - name.length := by omega
    rw [strncpy_string hname [] _ hshort (by simp), List.take_append,
      List.take_of_length_le hshort, List.take_replicate, hfill, List.drop_replicate]
    simp

omit [Kernel] in
/-- The name ends in its field if it has at most 31 bytes. -/
theorem libraryName_ends {name : List UInt8} (hname : 0 ∉ name) :
    0 ∈ (name ++ List.replicate 32 0).take 32 ↔ name.length ≤ 31 := by
  rw [List.take_append, List.mem_append]
  constructor
  · rintro (hin | hin)
    · exact absurd (List.mem_of_mem_take hin) hname
    · have hne := List.ne_nil_of_mem hin
      rw [List.take_replicate] at hne
      by_contra hlong
      exact hne (by rw [show 32 - name.length = 0 by omega]; rfl)
  · intro hshort
    right
    rw [List.take_replicate]
    exact List.mem_replicate.mpr ⟨by omega, rfl⟩

theorem unionOffset_pos : 0 < unionOffset := by
  unfold unionOffset
  split <;> decide

theorem length_packetBytes (command : UInt8) {union : List UInt8} (h : union.length ≤ 52) :
    (packetBytes command union).length = bdtunCommSize := by
  simp only [packetBytes, List.length_append, List.length_cons, List.length_replicate]
  unfold unionOffset bdtunCommSize
  split <;> omega

/-- What is read of the union of a packet is what was put there. -/
theorem unionBytes_packetBytes (command : UInt8) {union : List UInt8} {offset n : Nat}
    (h : offset + n ≤ union.length) :
    unionBytes (packetBytes command union) offset n = (union.drop offset).take n := by
  have hpos := unionOffset_pos
  have hhead : (command :: List.replicate (unionOffset - 1) 0).length = unionOffset := by
    rw [List.length_cons, List.length_replicate]
    omega
  unfold unionBytes packetBytes
  rw [List.append_assoc, ← List.drop_drop, List.drop_left' hhead,
    List.drop_append_of_le_length (by omega), List.take_append_of_le_length]
  rw [List.length_drop]
  omega

/-- The packet of `bdtun_create`, field by field. -/
theorem create_packet {name : List UInt8} (hname : 0 ∉ name) (blocksize size : UInt64)
    (capabilities : BitVec 32) : ∃ packet, bdtunCreate name blocksize size capabilities = some packet ∧
      packet.length = bdtunCommSize ∧ packet.headD 0 = bdtunCommCreate ∧
      unionWord packet 0 8 = blocksize.toNat ∧ unionWord packet 8 8 = size.toNat ∧
      unionWord packet 16 4 = capabilities.toNat ∧
      packetName packet 20 = (name ++ List.replicate 32 0).take 32 := by
  unfold bdtunCreate
  rw [libraryName_eq hname, Option.map_some]
  have hfield : ((name ++ List.replicate 32 0).take 32).length = 32 := by simp
  generalize (name ++ List.replicate 32 0).take 32 = field at hfield
  refine ⟨_, rfl, ?_, rfl, ?_, ?_, ?_, ?_⟩
  · apply length_packetBytes
    simp [hfield]
  · unfold unionWord
    rw [unionBytes_packetBytes _ (by simp), List.drop_zero, List.append_assoc, List.append_assoc,
      List.take_left' (by simp), wordOf_wordBytes _ _ blocksize.toNat_lt]
  · unfold unionWord
    rw [unionBytes_packetBytes _ (by simp; omega), List.append_assoc, List.append_assoc,
      List.drop_left' (by simp), List.take_left' (by simp), wordOf_wordBytes _ _ size.toNat_lt]
  · unfold unionWord
    rw [unionBytes_packetBytes _ (by simp; omega), List.append_assoc, List.drop_left' (by simp),
      List.take_left' (by simp), wordOf_wordBytes _ _ capabilities.isLt]
  · unfold packetName bdevnameSize
    rw [unionBytes_packetBytes _ (by simp [hfield]), List.drop_left' (by simp),
      List.take_of_length_le (by omega)]

/-- The packet of a resize. -/
theorem resize_packet {name : List UInt8} (hname : 0 ∉ name) (size : UInt64) :
    ∃ packet, bdtunResize name size = some packet ∧
      packet.length = bdtunCommSize ∧ packet.headD 0 = bdtunCommResize ∧
      unionWord packet 0 8 = size.toNat ∧
      packetName packet 8 = (name ++ List.replicate 32 0).take 32 := by
  unfold bdtunResize
  rw [libraryName_eq hname, Option.map_some]
  have hfield : ((name ++ List.replicate 32 0).take 32).length = 32 := by simp
  generalize (name ++ List.replicate 32 0).take 32 = field at hfield
  refine ⟨_, rfl, ?_, rfl, ?_, ?_⟩
  · apply length_packetBytes
    simp [hfield]
  · unfold unionWord
    rw [unionBytes_packetBytes _ (by simp), List.drop_zero, List.take_left' (by simp),
      wordOf_wordBytes _ _ size.toNat_lt]
  · unfold packetName bdevnameSize
    rw [unionBytes_packetBytes _ (by simp [hfield]), List.drop_left' (by simp),
      List.take_of_length_le (by omega)]

end

end BDTun
