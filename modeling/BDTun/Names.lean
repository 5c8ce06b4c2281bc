import BDTun.Packet
import BDTun.Sizes

/-!
# The name in a packet

Nothing makes a name end within its 32 bytes: the library cuts a longer one off
with `strncpy`, and `ctrl_write` takes the bytes as they come.  Comparisons stop
in time, since no listed name is that long; the copies of `bdtun_create_k` do not.

* `names_inside`: a packet is handled inside its name's field and the arrays it is
  copied to exactly when it is not a create, with sizes that pass, of a name that
  does not end.
-/

namespace BDTun

open Memory CString

section
variable [Kernel]

/-- A create, with sizes that pass the checks, of a name that fills its field. -/
def Overlong (packet : List UInt8) : Prop := Creates packet ∧ 0 ∉ packetName packet 20

instance (packet : List UInt8) : Decidable (Overlong packet) :=
  inferInstanceAs (Decidable (_ ∧ _))

/-- The names stay in their places. -/
structure NamesInside (s : Ctrl) (packet : List UInt8) (k : Answers) (frame : CreateFrame) :
    Prop where
  /-- no read outside the field, and no write outside a destination -/
  inside : (Raw.ctrlWrite s packet k frame).isSome = true
  /-- the copies of a create are strings that end -/
  copied : Creates packet → ∃ charname qname diskName,
    createNames frame (packetName packet 20) = some (charname, qname) ∧
      copyDiskName (packetName packet 20) = some diskName ∧
      (charname.length = bdevnameSize + 5 ∧ 0 ∈ charname) ∧
      qname.length = bdevnameSize + 3 ∧ 0 ∈ qname
  /-- a name that does not fit is refused -/
  rejected : decode packet = none → ∃ code < 0, Raw.ctrlWrite s packet k frame = some (s, .ret code)

/-- The name of a create is read from its field. -/
theorem decode_create {packet : List UInt8} (h : bdtunCommSize ≤ packet.length)
    (hc : packet.headD 0 = bdtunCommCreate) :
    decode packet = none ↔ 0 ∉ packetName packet 20 := by
  have hlen := length_packetName h (show 20 ≤ 20 by decide)
  unfold decode
  rw [if_pos hc, Option.map_eq_none_iff]
  rcases field_cases hlen with ⟨n, rest, hfield⟩ | hnone
  · rw [hfield, DiskName.read_string]
    simp
  · rw [DiskName.read_endless hlen hnone]
    exact iff_of_true rfl hnone

/-- The arrays on a stack without a zero byte. -/
def fullFrame : CreateFrame where
  charname := List.replicate 37 1
  qname := List.replicate 35 1
  charname_length := by decide
  qname_length := by decide

omit [Kernel] in
/-- On such a stack the extension of `charname` does not find where it ends. -/
theorem createNames_endless {field : List UInt8} (h : field.length = 32) (hnone : 0 ∉ field) :
    createNames fullFrame field = none := by
  have hcopy := strncpy_long hnone [] (List.replicate 37 1) (n := 32) (by omega) (by decide)
  rw [List.append_nil, List.take_of_length_le (by omega)] at hcopy
  have hend : 0 ∉ field ++ (List.replicate 37 (1 : UInt8)).drop 32 := by
    rw [List.mem_append, not_or]
    exact ⟨hnone, by decide⟩
  unfold createNames
  show (strncpy 0 (List.replicate 37 1) field 32 >>= _) = none
  rw [hcopy, Option.bind_eq_bind, Option.bind_some, strcat_endless hend]
  rfl

theorem overlong_outside {packet : List UInt8} (h : bdtunCommSize ≤ packet.length)
    (hover : Overlong packet) (s : Ctrl) (k : Answers) :
    Raw.ctrlWrite s packet k fullFrame = none := by
  obtain ⟨⟨hc, hcheck⟩, hnone⟩ := hover
  have hlen := length_packetName h (show 20 ≤ 20 by decide)
  have hpos := bdtunCommSize_pos
  unfold Raw.ctrlWrite Raw.bdtunCreateK
  rw [Raw.find_endless _ hlen hnone, hcheck, createNames_endless hlen hnone]
  simp only [if_neg (show ¬ packet.length < 1 by omega), if_pos hc,
    if_neg (show ¬ packet.length < bdtunCommSize by omega), Option.map_none]

theorem packet_inside {packet : List UInt8} (h : bdtunCommSize ≤ packet.length) :
    (∀ s k frame, NamesInside s packet k frame) ↔ ¬ Overlong packet := by
  constructor
  · intro hinside hover
    have hsome := (hinside .init ⟨none, none, .ok 0, .ok 0, .ok (), true, none, none, .ok (), []⟩
      fullFrame).inside
    rw [overlong_outside h hover] at hsome
    cases hsome
  · intro hnot s k frame
    have hterminated : Creates packet → ∃ n : DiskName, ∃ rest,
        packetName packet 20 = n.bytes ++ 0 :: rest := by
      intro hcreates
      rcases field_cases (length_packetName h (show 20 ≤ 20 by decide)) with hends | hnone
      · exact hends
      · exact absurd ⟨hcreates, hnone⟩ hnot
    have hrejected : decode packet = none →
        ∃ code < 0, Raw.ctrlWrite s packet k frame = some (s, .ret code) := by
      intro hnone
      refine raw_endless s k frame h hnone fun hcreates => hnot ⟨hcreates, ?_⟩
      exact (decode_create h hcreates.1).mp hnone
    refine ⟨?_, ?_, hrejected⟩
    · cases hc : decode packet with
      | none =>
        obtain ⟨code, -, hret⟩ := hrejected hc
        rw [hret]
        rfl
      | some c =>
        rw [raw_string s k frame h hc]
        rfl
    · intro hcreates
      obtain ⟨n, rest, hfield⟩ := hterminated hcreates
      obtain ⟨charname, qname, hnames, hchar, hq⟩ := createNames_string frame n rest
      rw [hfield]
      exact ⟨charname, qname, n, hnames, copyDiskName_string n rest, ⟨hchar.1, hchar.2.1⟩, hq.1,
        hq.2.1⟩

/-- The library's packets are long enough, and only a create can be of this kind. -/
theorem library_overlong {name : List UInt8} (hname : 0 ∉ name) :
    (∀ blocksize size capabilities packet,
      bdtunCreate name blocksize size capabilities = some packet →
      bdtunCommSize ≤ packet.length ∧ (Overlong packet ↔
        32 ≤ name.length ∧ createCheck blocksize.toNat size.toNat = .ok ())) ∧
    ∀ packet, (∃ size, bdtunResize name size = some packet) ∨ bdtunRemove name = some packet ∨
      bdtunInfo name = some packet → bdtunCommSize ≤ packet.length ∧ ¬ Overlong packet := by
  refine ⟨fun blocksize size capabilities packet hpacket => ?_, fun packet hpacket => ?_⟩
  · obtain ⟨packet', hpacket', hlen, hhead, hblocksize, hsize, -, hfield⟩ :=
      create_packet hname blocksize size capabilities
    obtain rfl := Option.some.inj (hpacket'.symm.trans hpacket)
    refine ⟨hlen.ge, ?_⟩
    unfold Overlong Creates
    rw [hfield, libraryName_ends hname, hblocksize, hsize]
    constructor
    · rintro ⟨⟨-, hcheck⟩, hlong⟩
      exact ⟨by omega, hcheck⟩
    · rintro ⟨hlong, hcheck⟩
      exact ⟨⟨hhead, hcheck⟩, by omega⟩
  · have hfield : ((name ++ List.replicate 32 0).take 32).length = 32 := by simp
    unfold bdtunResize bdtunRemove bdtunInfo at hpacket
    rw [libraryName_eq hname] at hpacket
    generalize (name ++ List.replicate 32 0).take 32 = field at hfield hpacket
    -- what the three have in common
    have hother : ∀ (command : UInt8) (union : List UInt8), union.length ≤ 52 →
        command ≠ bdtunCommCreate → bdtunCommSize ≤ (packetBytes command union).length ∧
          ¬ Overlong (packetBytes command union) := by
      intro command union hunion hcommand
      refine ⟨(length_packetBytes command hunion).ge, ?_⟩
      rintro ⟨⟨hhead, -⟩, -⟩
      exact hcommand hhead
    rcases hpacket with ⟨size, hpacket⟩ | hpacket | hpacket
    · rw [← Option.some.inj hpacket]
      exact hother _ _ (by simp [hfield]) (by decide)
    · rw [← Option.some.inj hpacket]
      exact hother _ _ (by omega) (by decide)
    · rw [← Option.some.inj hpacket]
      exact hother _ _ (by omega) (by decide)

/-- **Names.**  A packet that is long enough is handled inside its name's field and the places it is
copied to, for every device list, stack and answer of the kernel, exactly when it is not a create with
sizes that pass of a name without a terminator in its 32 bytes.  So it is with the library's packets,
for names of any length: a create is one of these if its name has 32 bytes or more. -/
theorem names_inside :
    (∀ packet, bdtunCommSize ≤ packet.length →
      ((∀ s k frame, NamesInside s packet k frame) ↔ ¬ Overlong packet)) ∧
    ∀ name : List UInt8, 0 ∉ name →
      (∀ blocksize size capabilities packet,
        bdtunCreate name blocksize size capabilities = some packet →
        ((∀ s k frame, NamesInside s packet k frame) ↔
          ¬ (32 ≤ name.length ∧ createCheck blocksize.toNat size.toNat = .ok ()))) ∧
      ∀ packet, (∃ size, bdtunResize name size = some packet) ∨ bdtunRemove name = some packet ∨
        bdtunInfo name = some packet → ∀ s k frame, NamesInside s packet k frame := by
  refine ⟨fun packet h => packet_inside h, fun name hname => ?_⟩
  obtain ⟨hcreate, hother⟩ := library_overlong hname
  refine ⟨fun blocksize size capabilities packet hpacket => ?_, fun packet hpacket => ?_⟩
  · obtain ⟨hlen, hover⟩ := hcreate blocksize size capabilities packet hpacket
    rw [packet_inside hlen, hover]
  · obtain ⟨hlen, hnot⟩ := hother packet hpacket
    exact (packet_inside hlen).mpr hnot

end

section
attribute [local instance] linux32

/-- `bdtun_create` with a name of 32 letters. -/
theorem long_name_overruns : ¬ ∀ packet, bdtunCommSize ≤ packet.length →
    ∀ s k frame, NamesInside s packet k frame := by
  intro h
  have hname : (0 : UInt8) ∉ List.replicate 32 97 := by decide
  obtain ⟨packet, -, hlen, hhead, hblocksize, hsize, -, hfield⟩ := create_packet hname 512 1024 0
  have hover : Overlong packet := by
    refine ⟨⟨hhead, ?_⟩, ?_⟩
    · rw [hblocksize, hsize]
      rfl
    · rw [hfield]
      decide
  have hsome := (h packet hlen.ge .init sampleAnswers fullFrame).inside
  rw [overlong_outside hlen.ge hover] at hsome
  cases hsome

end

end BDTun
