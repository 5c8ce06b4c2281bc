import BDTun.CommandLine
import BDTun.Names
import BDTun.Response

/-!
# The library on an open control device

What `bdtun_create`, `bdtun_resize`, `bdtun_remove` and `bdtun_info` do as whole
calls: the packet they write, the driver's answer, and for `bdtun_info` the read
that follows.  A program sees -1 for every error.

* `encode_decode`: the driver reads the command that the library wrote.
* `infoReply_bytes`: `struct bdtun_info` comes through as it was, whatever the
  padding.
* `info_reply`: in every run `bdtun_info` fails for names that are not registered
  and gives what the registry has of the others.
-/

namespace BDTun

open Memory Machine CString

section
variable [Kernel]

/-! ## Packets -/

/-- `bdtun_list`: what it writes -/
def listPacket (offset maxdevices : Nat) : List UInt8 :=
  packetBytes bdtunCommList (wordBytes sizeofLong offset ++ wordBytes sizeofLong maxdevices)

/-- What the library writes for a command; there is no function for other bytes. -/
def CtrlCommand.encode : CtrlCommand → Option (List UInt8)
  | .create name blocksize size capabilities => bdtunCreate name.bytes blocksize size capabilities
  | .remove name => bdtunRemove name.bytes
  | .info name => bdtunInfo name.bytes
  | .list offset maxdevices => some (listPacket offset maxdevices)
  | .resize name size => bdtunResize name.bytes size
  | .other _ => none

/-- The numbers of a command are of their types. -/
def CtrlCommand.InRange : CtrlCommand → Prop
  | .list offset maxdevices => offset < 2 ^ bitsPerLong ∧ maxdevices < 2 ^ bitsPerLong
  | _ => True

omit [Kernel] in
/-- The field that the library fills with a name is read as that name. -/
theorem read_field (n : DiskName) : DiskName.read ((n.bytes ++ List.replicate 32 0).take 32) = some n := by
  rw [take_zeros n.fits, DiskName.read_string]

/-- A packet that holds nothing but a name. -/
theorem name_packet (command : UInt8) (n : DiskName) :
    ∃ packet, (libraryName n.bytes).map (packetBytes command) = some packet ∧
      packet.length = bdtunCommSize ∧ packet.headD 0 = command ∧
      DiskName.read (packetName packet 0) = some n := by
  rw [libraryName_eq n.noNul, Option.map_some]
  have hread := read_field n
  have hlength : ((n.bytes ++ List.replicate 32 0).take 32).length = 32 := by simp
  generalize (n.bytes ++ List.replicate 32 0).take 32 = field at hread hlength
  refine ⟨_, rfl, length_packetBytes _ (by omega), rfl, ?_⟩
  unfold packetName bdevnameSize
  rw [unionBytes_packetBytes _ (by omega), List.drop_zero, List.take_of_length_le (by omega)]
  exact hread

theorem sizeofLong_bits : sizeofLong ≤ 8 ∧ 256 ^ sizeofLong = 2 ^ bitsPerLong := by
  unfold sizeofLong
  rcases Kernel.bitsPerLong_eq with h | h <;> rw [h] <;> decide

/-- **Round trip.**  The driver reads the command that the library wrote. -/
theorem encode_decode {c : CtrlCommand} {packet : List UInt8} (h : c.encode = some packet)
    (hc : c.InRange) : packet.length = bdtunCommSize ∧ decode packet = some c := by
  cases c with
  | create name blocksize size capabilities =>
    obtain ⟨packet', hpacket, hlen, hhead, hblock, hsize, hcap, hfield⟩ :=
      create_packet name.noNul blocksize size capabilities
    obtain rfl := Option.some.inj (hpacket.symm.trans h)
    refine ⟨hlen, ?_⟩
    unfold decode
    rw [if_pos hhead, hfield, read_field, hblock, hsize, hcap, UInt64.ofNat_toNat,
      UInt64.ofNat_toNat, BitVec.ofNat_toNat, BitVec.setWidth_eq]
    rfl
  | remove name =>
    obtain ⟨packet', hpacket, hlen, hhead, hread⟩ := name_packet bdtunCommRemove name
    obtain rfl := Option.some.inj (hpacket.symm.trans h)
    refine ⟨hlen, ?_⟩
    unfold decode
    rw [hhead, if_neg (by decide), if_pos rfl, hread]
    rfl
  | info name =>
    obtain ⟨packet', hpacket, hlen, hhead, hread⟩ := name_packet bdtunCommInfo name
    obtain rfl := Option.some.inj (hpacket.symm.trans h)
    refine ⟨hlen, ?_⟩
    unfold decode
    rw [hhead, if_neg (by decide), if_neg (by decide), if_pos rfl, hread]
    rfl
  | list offset maxdevices =>
    obtain rfl := Option.some.inj h
    obtain ⟨hle, hpow⟩ := sizeofLong_bits
    obtain ⟨hoffset, hmax⟩ := hc
    rw [← hpow] at hoffset hmax
    have hhead : (listPacket offset maxdevices).headD 0 = bdtunCommList := rfl
    refine ⟨length_packetBytes _ (by simp; omega), ?_⟩
    unfold decode
    rw [hhead, if_neg (by decide), if_neg (by decide), if_neg (by decide), if_pos rfl]
    unfold unionWord listPacket
    rw [unionBytes_packetBytes _ (by simp), unionBytes_packetBytes _ (by simp), List.drop_zero,
      List.take_left' (by simp), List.drop_left' (by simp), List.take_of_length_le (by simp),
      wordOf_wordBytes _ _ hoffset, wordOf_wordBytes _ _ hmax]
  | resize name size =>
    obtain ⟨packet', hpacket, hlen, hhead, hsize, hfield⟩ := resize_packet name.noNul size
    obtain rfl := Option.some.inj (hpacket.symm.trans h)
    refine ⟨hlen, ?_⟩
    unfold decode
    rw [hhead, if_neg (by decide), if_neg (by decide), if_neg (by decide), if_neg (by decide),
      if_pos rfl, hfield, read_field, hsize, UInt64.ofNat_toNat]
    rfl
  | other command => cases h

/-- Every command that the library has a function for is written. -/
theorem encode_some {c : CtrlCommand} (h : ∀ command, c ≠ .other command) :
    ∃ packet, c.encode = some packet := by
  cases c with
  | create name blocksize size capabilities =>
    obtain ⟨packet, hpacket, -⟩ := create_packet name.noNul blocksize size capabilities
    exact ⟨packet, hpacket⟩
  | remove name =>
    obtain ⟨packet, hpacket, -⟩ := name_packet bdtunCommRemove name
    exact ⟨packet, hpacket⟩
  | info name =>
    obtain ⟨packet, hpacket, -⟩ := name_packet bdtunCommInfo name
    exact ⟨packet, hpacket⟩
  | list offset maxdevices => exact ⟨_, rfl⟩
  | resize name size =>
    obtain ⟨packet, hpacket, -⟩ := resize_packet name.noNul size
    exact ⟨packet, hpacket⟩
  | other command => exact absurd rfl (h command)

/-! ## The reply to INFO -/

/-- `struct bdtun_info`, as a program has it. -/
structure InfoReply where
  bdSize : UInt64
  bdBlockSize : UInt64
  bdMajor : BitVec 32
  bdMinor : BitVec 32
  chMajor : BitVec 32
  chMinor : BitVec 32
  capabilities : BitVec 32
deriving DecidableEq

/-- `sizeof(struct bdtun_info)` -/
def infoSize : Nat := 36 + infoPadding

/-- The members, from the memory of the structure. -/
def InfoReply.ofBytes (mem : List UInt8) : InfoReply where
  bdSize := UInt64.ofNat (wordOf (mem.take 8))
  bdBlockSize := UInt64.ofNat (wordOf ((mem.drop 8).take 8))
  bdMajor := BitVec.ofNat 32 (wordOf ((mem.drop 16).take 4))
  bdMinor := BitVec.ofNat 32 (wordOf ((mem.drop 20).take 4))
  chMajor := BitVec.ofNat 32 (wordOf ((mem.drop 24).take 4))
  chMinor := BitVec.ofNat 32 (wordOf ((mem.drop 28).take 4))
  capabilities := BitVec.ofNat 32 (wordOf ((mem.drop 32).take 4))

/-- What the driver fills in, in the types of the members. -/
def BdtunInfo.reply (info : BdtunInfo) : InfoReply where
  bdSize := UInt64.ofNat info.bdSize
  bdBlockSize := UInt64.ofNat info.bdBlockSize
  bdMajor := BitVec.ofNat 32 info.bdMajor
  bdMinor := BitVec.ofNat 32 info.bdMinor
  chMajor := BitVec.ofNat 32 info.chMajor
  chMinor := BitVec.ofNat 32 info.chMinor
  capabilities := info.capabilities

omit [Kernel] in
/-- The low bytes of a number are the number modulo their range. -/
theorem wordOf_wordBytes_mod (n w : Nat) : wordOf (wordBytes n w) = w % 256 ^ n := by
  induction n generalizing w with
  | zero => rw [Nat.pow_zero, Nat.mod_one]; rfl
  | succ n ih =>
    have hrest := ih (w / 256)
    show (UInt8.ofNat w).toNat + 256 * wordOf (wordBytes n (w / 256)) = _
    rw [hrest, UInt8.toNat_ofNat', pow_succ' (256 : Nat), Nat.mod_mul]

omit [Kernel] in
theorem word64_bytes (w : Nat) : UInt64.ofNat (wordOf (wordBytes 8 w)) = UInt64.ofNat w := by
  rw [wordOf_wordBytes_mod]
  refine UInt64.toNat_inj.mp ?_
  rw [UInt64.toNat_ofNat', UInt64.toNat_ofNat']
  exact Nat.mod_mod _ _

omit [Kernel] in
theorem word32_bytes (w : Nat) : BitVec.ofNat 32 (wordOf (wordBytes 4 w)) = BitVec.ofNat 32 w := by
  rw [wordOf_wordBytes_mod]
  refine BitVec.toNat_inj.mp ?_
  rw [BitVec.toNat_ofNat, BitVec.toNat_ofNat]
  exact Nat.mod_mod _ _

theorem length_infoBytes (info : BdtunInfo) (stack : List UInt8) :
    (info.bytes stack).length = infoSize := by
  simp only [BdtunInfo.bytes, infoSize, List.length_append, length_wordBytes, List.length_map,
    List.length_range]

/-- **Round trip** of `struct bdtun_info`, on any stack and into any memory. -/
theorem infoReply_bytes (info : BdtunInfo) (stack rest : List UInt8) :
    InfoReply.ofBytes (info.bytes stack ++ rest) = info.reply := by
  unfold BdtunInfo.bytes InfoReply.ofBytes
  simp only [List.append_assoc]
  simp [List.drop_append, List.drop_eq_nil_of_le, word64_bytes, word32_bytes, BdtunInfo.reply]

/-! ## Whole calls -/

omit [Kernel] in
/-- What a system call returns to the program; none where the driver faults. -/
def CtrlRet.returned : CtrlRet → Option Int
  | .ret code => some (if code < 0 then -1 else code)
  | .wrote count _ => some count
  | .data code _ => some (if code < 0 then -1 else code)
  | .oops => none

omit [Kernel] in
/-- `if (ret < 0) return ret;` and 0 otherwise. -/
def settle (res : Ctrl × CtrlRet) : Option (Ctrl × Int) :=
  res.2.returned.map fun ret => (res.1, if ret < 0 then ret else 0)

omit [Kernel] in
theorem settle_wrote (s : Ctrl) (count : Nat) (response : List UInt8) :
    settle (s, .wrote count response) = some (s, 0) := by
  have hcount : ¬ (count : Int) < 0 := by omega
  simp [settle, CtrlRet.returned, hcount]

omit [Kernel] in
theorem settle_error (s : Ctrl) {code : Int} (h : code < 0) :
    settle (s, .ret code) = some (s, -1) := by
  simp [settle, CtrlRet.returned, h]

omit [Kernel] in
theorem settle_data (s : Ctrl) (n : Nat) (bytes : List UInt8) :
    settle (s, .data n bytes) = some (s, 0) := by
  have hn : ¬ (n : Int) < 0 := by omega
  simp [settle, CtrlRet.returned, hn]

namespace ControlFd

/-- `write(fd, &c, ...)` and what follows it. -/
def send (s : Ctrl) (packet : List UInt8) (k : Answers) (frame : CreateFrame) :
    Option (Ctrl × Int) :=
  (Raw.ctrlWrite s packet k frame).bind settle

def bdtunCreate (s : Ctrl) (name : List UInt8) (blocksize size : UInt64) (capabilities : BitVec 32)
    (k : Answers) (frame : CreateFrame) : Option (Ctrl × Int) :=
  (BDTun.bdtunCreate name blocksize size capabilities).bind fun packet => send s packet k frame

def bdtunResize (s : Ctrl) (name : List UInt8) (size : UInt64) (k : Answers) (frame : CreateFrame) :
    Option (Ctrl × Int) :=
  (BDTun.bdtunResize name size).bind fun packet => send s packet k frame

def bdtunRemove (s : Ctrl) (name : List UInt8) (k : Answers) (frame : CreateFrame) :
    Option (Ctrl × Int) :=
  (BDTun.bdtunRemove name).bind fun packet => send s packet k frame

/-- `bdtun_info`, with the memory that `info` points to. -/
def bdtunInfo (s : Ctrl) (name : List UInt8) (info : List UInt8) (k : Answers) (frame : CreateFrame) :
    Option (Ctrl × Int × List UInt8) :=
  (BDTun.bdtunInfo name).bind fun packet =>
  (send s packet k frame).bind fun (s, ret) =>
  if ret < 0 then some (s, ret, info)
  else
    let (s, r) := ctrlRead s infoSize infoSize
    let info := r.copied ++ info.drop r.copied.length
    (settle (s, r)).map fun (s, ret) => (s, ret, info)

end ControlFd

/-- **A command of the library** is the command on the driver's side. -/
theorem send_eq {c : CtrlCommand} {packet : List UInt8} (h : c.encode = some packet)
    (hc : c.InRange) (s : Ctrl) (k : Answers) (frame : CreateFrame) :
    ControlFd.send s packet k frame = settle (ctrlWrite s bdtunCommSize c k) := by
  obtain ⟨hlen, hdecode⟩ := encode_decode h hc
  rw [ControlFd.send, raw_string s k frame hlen.ge hdecode, hlen]
  rfl

variable {s : Ctrl}

/-- What an INFO has put into the buffer is read at once. -/
theorem ctrlRead_info (s : Ctrl) (i : BdtunInfo) (stack : List UInt8) :
    ctrlRead
      { s with
        ctrlResponseBuf := memcpy s.ctrlResponseBuf 0 (i.bytes stack)
        ctrlResponseSize := (i.bytes stack).length } infoSize infoSize =
      ({ s with
        ctrlResponseBuf := memcpy s.ctrlResponseBuf 0 (i.bytes stack)
        ctrlResponseSize := 0 }, .data infoSize (i.bytes stack)) := by
  have hresponse := gather_memcpy_start s.ctrlResponseBuf (i.bytes stack)
  have hlen := length_infoBytes i stack
  rw [hlen] at hresponse ⊢
  have hsize : ¬ (infoSize : Int) < 0 := by omega
  simp only [ctrlRead, if_neg hsize, Int.le_refl, if_true, Ctrl.response, Int.toNat_natCast,
    hresponse]

/-- `bdtun_info`, by the device of the name. -/
theorem bdtunInfo_eq (s : Ctrl) (n : DiskName) (info : List UInt8) (k : Answers)
    (frame : CreateFrame) : ControlFd.bdtunInfo s n.bytes info k frame =
      match bdtunInfoK s.deviceList n with
      | .error _ => some (s, -1, info)
      | .ok i => some
        ({ s with
          ctrlResponseBuf := memcpy s.ctrlResponseBuf 0 (i.bytes k.stack)
          ctrlResponseSize := 0 }, 0, i.bytes k.stack ++ info.drop infoSize) := by
  obtain ⟨packet, hpacket⟩ := encode_some (c := .info n) (by simp)
  have hlib : BDTun.bdtunInfo n.bytes = some packet := hpacket
  rw [ControlFd.bdtunInfo, hlib, Option.bind_some, send_eq hpacket trivial,
    ctrlWrite_long s _ k (Nat.le_refl _)]
  simp only
  cases hinfo : bdtunInfoK s.deviceList n with
  | error e =>
    have hneg : e < 0 := by
      unfold bdtunInfoK at hinfo
      cases hf : bdtunFindDevice s.deviceList n with
      | none =>
        rw [hf] at hinfo
        rw [← Except.error.inj hinfo]
        decide
      | some d =>
        rw [hf] at hinfo
        cases hinfo
    simp only [settle_error s hneg, Option.bind_some, if_pos (show (-1 : Int) < 0 by decide)]
  | ok i =>
    have hread := ctrlRead_info s i k.stack
    have hlen := length_infoBytes i k.stack
    have hzero : ¬ (0 : Int) < 0 := by decide
    simp only [settle_wrote, Option.bind_some, if_neg hzero, hread, settle_data, Option.map_some,
      CtrlRet.copied]
    rw [hlen]

/-! ## Against the registry -/

omit [Kernel] in
/-- The sizes of a registry fit into the words of `struct bdtun_info`. -/
def Registry.InWords (m : Registry) : Prop :=
  ∀ p ∈ m.entries, p.2.size < 2 ^ 64 ∧ p.2.blockSize < 2 ^ 64

omit [Kernel] in
theorem Registry.InWords.apply {m : Registry} (h : m.InWords) (c : CtrlCommand) :
    (m.apply c).InWords := by
  cases c with
  | create name blocksize size capabilities =>
    show Registry.InWords (m.append name _)
    by_cases hin : name ∈ m.keys
    · rw [OrderedMap.append, dif_pos hin]
      exact h
    · intro p hp
      rw [OrderedMap.entries_append_of_notMem _ hin] at hp
      rcases List.mem_append.mp hp with hold | hnew
      · exact h p hold
      · rw [List.mem_singleton.mp hnew]
        exact ⟨size.toNat_lt, blocksize.toNat_lt⟩
  | remove name => exact fun p hp => h p (List.mem_of_mem_filter hp)
  | resize name size =>
    intro p hp
    obtain ⟨q, hq, rfl⟩ := List.mem_map.mp hp
    have hold := h q hq
    split
    · exact ⟨size.toNat_lt, hold.2⟩
    · exact hold
  | list offset maxdevices => exact h
  | info name => exact h
  | other command => exact h

omit [Kernel] in
theorem replay_inWords (tr : List (CtrlCall × CtrlRet)) : (replay tr).InWords := by
  induction tr using List.reverseRecOn with
  | nil => exact fun p hp => by cases hp
  | append_singleton tr e ih =>
    rw [replay_snoc]
    split
    · exact ih.apply _
    · exact ih

omit [Kernel] in
/-- What a lookup finds is in words. -/
theorem Registry.InWords.lookup {m : Registry} (h : m.InWords) {name : DiskName} {e : Entry}
    (he : m.lookup name = some e) : e.size < 2 ^ 64 ∧ e.blockSize < 2 ^ 64 := by
  obtain ⟨p, hp, rfl⟩ := Option.map_eq_some_iff.mp he
  exact h p (List.mem_of_find?_eq_some hp)

/-- A reply with what the registry has of a name, and the numbers of its device. -/
structure Reports (s : Ctrl) (name : DiskName) (e : Entry) (r : InfoReply) : Prop where
  size : r.bdSize.toNat = e.size
  blockSize : r.bdBlockSize.toNat = e.blockSize
  capabilities : r.capabilities = e.capabilities
  numbers : ∃ d ∈ s.deviceList, d.diskName = name ∧ r.bdMajor = BitVec.ofNat 32 d.major ∧
    r.bdMinor = 0 ∧ r.chMajor = BitVec.ofNat 32 (devMajor d.chNum) ∧
    r.chMinor = BitVec.ofNat 32 (devMinor d.chNum)

/-- **INFO, by the library**, from a state that a registry represents. -/
theorem Represents.info_call {m : Registry} (hr : Represents s m) (hw : m.InWords) (n : DiskName)
    (info : List UInt8) (k : Answers) (frame : CreateFrame) :
    (n ∉ m.keys → ControlFd.bdtunInfo s n.bytes info k frame = some (s, -1, info)) ∧
    ∀ e, m.lookup n = some e → ∃ t mem, ControlFd.bdtunInfo s n.bytes info k frame =
        some (t, 0, mem ++ info.drop infoSize) ∧ mem.length = infoSize ∧
      Reports s n e (InfoReply.ofBytes (mem ++ info.drop infoSize)) ∧
      t.deviceList = s.deviceList ∧ t.ctrlResponseSize = 0 := by
  rw [bdtunInfo_eq]
  constructor
  · intro habsent
    have hf := (hr.notMem_keys n).mp habsent
    simp only [bdtunInfoK, hf]
  · intro e he
    obtain ⟨hsize, hblock⟩ := hw.lookup he
    rw [hr.lookup] at he
    obtain ⟨d, hf, rfl⟩ := Option.map_eq_some_iff.mp he
    obtain ⟨hd, hname⟩ := find_some hf
    simp only [bdtunInfoK, hf]
    refine ⟨_, _, rfl, length_infoBytes _ _, ?_, rfl, rfl⟩
    rw [infoReply_bytes]
    exact ⟨UInt64.toNat_ofNat_of_lt' hsize, UInt64.toNat_ofNat_of_lt' hblock, rfl, d, hd, hname,
      rfl, rfl, rfl, rfl⟩

/-- **INFO end to end.**  In every run of the control plane: for a name that is not registered
`bdtun_info` returns -1 and leaves the caller's structure alone.  For a registered one it returns 0
and the structure has the size, the block size and the capabilities of the registry and the numbers
of the device, whatever was on the driver's stack, in its buffer or in the structure before; nothing
behind the structure is written, and no response is left. -/
theorem info_reply {tr : List (CtrlCall × CtrlRet)} (hrun : Run control ctrlUsers .init tr s)
    (n : DiskName) (info : List UInt8) (k : Answers) (frame : CreateFrame) :
    (n ∉ (replay tr).keys → ControlFd.bdtunInfo s n.bytes info k frame = some (s, -1, info)) ∧
    ∀ e, (replay tr).lookup n = some e → ∃ t mem, ControlFd.bdtunInfo s n.bytes info k frame =
        some (t, 0, mem ++ info.drop infoSize) ∧ mem.length = infoSize ∧
      Reports s n e (InfoReply.ofBytes (mem ++ info.drop infoSize)) ∧
      t.deviceList = s.deviceList ∧ t.ctrlResponseSize = 0 :=
  (run_represents hrun).info_call (replay_inWords tr) n info k frame

end

section
attribute [local instance] linux32

/-- A create, with the name "a" and two features. -/
theorem encode_decode_sample :
    let create := CtrlCommand.create sampleName 512 1024 (bdtunFlush ||| bdtunFua)
    ∃ packet, create.encode = some packet ∧ packet.length = 64 ∧ decode packet = some create := by
  intro create
  have hsize : bdtunCommSize = 64 := by decide
  obtain ⟨packet, hpacket⟩ : ∃ packet, create.encode = some packet := ⟨_, rfl⟩
  have hround := encode_decode hpacket trivial
  rw [hsize] at hround
  exact ⟨packet, hpacket, hround⟩

/-- The device of a create is asked for, into memory with a byte behind the structure. -/
theorem info_reply_sample : ∃ t mem, ControlFd.bdtunInfo (exec control .init sampleCreate)
      sampleName.bytes (List.replicate 41 7) sampleAnswers fullFrame = some (t, 0, mem ++ [7]) ∧
    Reports (exec control .init sampleCreate) sampleName ⟨512, 1024, 0⟩
      (InfoReply.ofBytes (mem ++ [7])) := by
  have hrun := @path_exec _ _ _ control ctrlUsers [] .init sampleCreate (by decide)
  obtain ⟨t, mem, hcall, -, hreports, -⟩ :=
    (info_reply hrun sampleName (List.replicate 41 7) sampleAnswers fullFrame).2 _ rfl
  have hbehind : (List.replicate 41 (7 : UInt8)).drop infoSize = [7] := by decide
  rw [hbehind] at hcall hreports
  exact ⟨t, mem, hcall, hreports⟩

end

end BDTun
