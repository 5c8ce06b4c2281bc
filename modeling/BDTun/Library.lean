import BDTun.Calls

/-!
# `lib/libbdtun.c`: the client library

Each function of the library makes one system call on a tunnel file and compares
what it returns with the count it expects; `LibCall` is the call and the count.
The two functions that end a request write the first byte of a string literal,
so `cLiteral` reads literals as the C language does.
-/

namespace BDTun

open Memory

/-- The bytes of a C string literal: a backslash takes up to three octal digits and is the byte they
name; the state is the digits taken so far and their value.  Other escapes do not occur. -/
def cLiteral : List Char → Option (Nat × Nat) → List UInt8
  | [], none => [0]
  | [], some (_, v) => [UInt8.ofNat v, 0]
  | c :: cs, none =>
    if c.toNat = 92 then cLiteral cs (some (0, 0)) else UInt8.ofNat c.toNat :: cLiteral cs none
  | c :: cs, some (n, v) =>
    if n < 3 ∧ 48 ≤ c.toNat ∧ c.toNat < 56 then cLiteral cs (some (n + 1, 8 * v + (c.toNat - 48)))
    else
      UInt8.ofNat v ::
        (if c.toNat = 92 then cLiteral cs (some (0, 0))
          else UInt8.ofNat c.toNat :: cLiteral cs none)

section
variable [Kernel]

/-- A library function: its system call, and the value of the call that is a success. -/
structure LibCall where
  call : Call
  success : Int

/-- What the function returns: 0 for the expected count, else the value of the system call, in which
the C library has turned an error number into -1. -/
def LibCall.result (l : LibCall) : Ret → Option Int
  | .ret code _ => some (if code = l.success then 0 else if code < 0 then -1 else code)
  | _ => none

/-- `bdtun_read_request` -/
def bdtunReadRequest (f : FileId) (signal : Bool) : LibCall where
  call := .read f bdtunTxreqHeaderSize bdtunTxreqHeaderSize signal
  success := bdtunTxreqHeaderSize

/-- `bdtun_set_request` -/
def bdtunSetRequest (f : FileId) (req : Txreq) : LibCall where
  call := .write f (wordBytes sizeofLong req.id) sizeofLong
  success := sizeofLong

/-- `bdtun_get_request_data`; the first `valid` bytes of the buffer can be written. -/
def bdtunGetRequestData (f : FileId) (req : Txreq) (valid : Nat) (signal : Bool) : LibCall where
  call := .read f req.size valid signal
  success := req.size

/-- `bdtun_send_request_data`; the first `valid` bytes of the buffer can be read. -/
def bdtunSendRequestData (f : FileId) (req : Txreq) (buf : List UInt8) (valid : Nat) : LibCall where
  call := .write f (buf.take req.size) valid
  success := req.size

/-- `write(fd, "...", 1)` -/
def writeLiteral (f : FileId) (lit : String) : LibCall where
  call := .write f ((cLiteral lit.toList none).take 1) 1
  success := 1

/-- `bdtun_complete_request` -/
def bdtunCompleteRequest (f : FileId) : LibCall := writeLiteral f "\\0x00"

/-- `bdtun_fail_request` -/
def bdtunFailRequest (f : FileId) : LibCall := writeLiteral f "\\0x01"

/-- `bdtun_mmap_request`: a shared mapping of `req->size` bytes at offset 0, placed at `start` by the
kernel, which rounds the length up to a page. -/
def bdtunMmapRequest (f : FileId) (req : Txreq) (start : Nat) (fail : Option Nat) : Call :=
  .mmap f ⟨start, start + (req.size + pageSize - 1) / pageSize * pageSize, 0, true⟩ fail

/-- A header read delivers the first incoming entry; with none it sleeps, or a signal ends it. -/
theorem read_request_next {s : World} (hwf : s.Wf) (f : FileId) (signal : Bool) :
    (s.dev.incomingBioList = [] ∧ tunnelNext s (bdtunReadRequest f signal).call =
      (s, if signal then .ret (-eintr) .nothing else .sleep)) ∨
    ∃ a rest entry, s.dev.incomingBioList = a :: rest ∧ s.entries a = some entry ∧
      tunnelNext s (bdtunReadRequest f signal).call =
        (s.deliver a rest entry, .ret bdtunTxreqHeaderSize (.header (header a entry))) := by
  have hread : tunnelNext s (bdtunReadRequest f signal).call = s.readHeader signal := by
    show bdtunchRead s bdtunTxreqHeaderSize bdtunTxreqHeaderSize signal = _
    rw [bdtunchRead, if_pos rfl]
  rw [hread]
  unfold World.readHeader
  cases hl : s.dev.incomingBioList with
  | nil => exact Or.inl ⟨rfl, rfl⟩
  | cons a rest =>
    right
    have hmem : a ∈ s.dev.incomingBioList := by rw [hl]; exact List.mem_cons_self
    obtain ⟨entry, he⟩ := hwf.entry_of_incoming hmem
    exact ⟨a, rest, entry, rfl, he, by simp only [he]⟩

/-- The id a client was given comes back to the driver as it was. -/
theorem set_request_next {s : World} (hwf : s.Wf) (f : FileId) (req : Txreq)
    {entry : BioListEntry} (he : s.entries req.id = some entry) :
    wordOf (wordBytes sizeofLong req.id) = req.id ∧
      tunnelNext s (bdtunSetRequest f req).call =
        (s.setCurrent req.id, .ret sizeofLong .nothing) := by
  have hfits : wordOf (wordBytes sizeofLong req.id) = req.id := by
    apply wordOf_wordBytes
    rw [← two_pow_bitsPerLong]
    exact (hwf.addr req.id (by rw [he]; rfl)).2
  refine ⟨hfits, ?_⟩
  simp only [bdtunSetRequest, tunnelNext]
  rw [bdtunchWrite_set s _ _ (length_wordBytes _ _), hfits, length_wordBytes]

/-- Both literals begin with the byte 0: the `x` ends the octal escape. -/
theorem completion_call (f : FileId) : (bdtunCompleteRequest f).call = .write f [0] 1 := by
  have hbytes : (cLiteral "\\0x00".toList none).take 1 = [0] := by decide
  rw [bdtunCompleteRequest, writeLiteral, hbytes]

theorem failure_call (f : FileId) : (bdtunFailRequest f).call = .write f [0] 1 := by
  have hbytes : (cLiteral "\\0x01".toList none).take 1 = [0] := by decide
  rw [bdtunFailRequest, writeLiteral, hbytes]

end

end BDTun
