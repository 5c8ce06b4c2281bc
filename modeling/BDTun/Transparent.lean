import BDTun.Library
import BDTun.Conservation
import BDTun.Transfer

/-!
# Device and serial client are a byte array

`server` runs one client, which repeats read, set, transfer and complete, against
submitters of data bios: a submission fills the segments of its bio (`submit`),
and other memory may be written at any time (`scribble`).  The client keeps its
data in a `Store`; `applyBio` is what a bio does to a plain byte array.

* `Serving`: what is done, what is still queued and where the client stands fit
  together; every step keeps it.
* `transparent`: in every run the client's calls succeed, the bios are done in the
  order they came in, and the store and what the reads got are the byte array's.
-/

namespace BDTun

open Memory Machine

/-- The client's store, and the plain byte array. -/
abbrev Store := Nat → UInt8

def writeAt (store : Store) (offset : Nat) (data : List UInt8) : Store := fun i =>
  if offset ≤ i ∧ i < offset + data.length then data.getD (i - offset) 0 else store i

def readAt (store : Store) (offset size : Nat) : List UInt8 :=
  (List.range size).map fun j => store (offset + j)

@[simp] theorem length_readAt (store : Store) (offset size : Nat) :
    (readAt store offset size).length = size := by
  simp [readAt]

section
variable [Kernel]

/-- A bio with the contents of its segments. -/
abbrev Loaded := Bio × List UInt8

/-- The first byte of a bio on the disk. -/
def Bio.byteOffset (bio : Bio) : Nat := bio.biSector * kernelSectorSize

/-- What a bio does to a plain byte array. -/
def applyBio (store : Store) (p : Loaded) : Store :=
  if bioDataDir p.1 = dirWrite then writeAt store p.1.byteOffset p.2 else store

def applyAll (store : Store) (l : List Loaded) : Store := l.foldl applyBio store

theorem applyAll_snoc (store : Store) (l : List Loaded) (p : Loaded) :
    applyAll store (l ++ [p]) = applyBio (applyAll store l) p := by
  simp [applyAll]

/-! ## The client and the submitters -/

/-- Where the client stands. -/
inductive Phase
  | idle
  | haveRequest (req : Txreq)
  | requestSet (req : Txreq)
  | transferred (req : Txreq)
  /-- a call did not succeed -/
  | failed

structure Server where
  world : World
  store : Store
  phase : Phase
  /-- the bios that got a list entry, with what their segments held on submission -/
  accepted : List Loaded
  /-- the bios the client completed, with what their segments held then -/
  done : List Loaded
  /-- those of them whose segments were not written to since by a submitter -/
  kept : List Loaded

/-- A library call of the client, and where it stands when the call succeeds. -/
def Server.call (t : Server) (l : LibCall) (phase : Phase) : Server :=
  { t with
    world := (tunnelNext t.world l.call).1
    phase := if l.result (tunnelNext t.world l.call).2 = some 0 then phase else .failed }

/-- The data-current bio and what its segments hold. -/
def World.loaded (s : World) : List Loaded :=
  (s.bioAt s.dev.dataCurrentBio).toList.map fun bio => (bio, gather s.mem bio.places)

/-- The next call of the client. -/
def Server.client (t : Server) : Server :=
  match t.phase with
  | .idle =>
    match tunnelNext t.world (bdtunReadRequest 0 false).call with
    | (world, .ret _ (.header req)) => { t with world := world, phase := .haveRequest req }
    | (world, .sleep) => { t with world := world }
    | (world, _) => { t with world := world, phase := .failed }
  | .haveRequest req => t.call (bdtunSetRequest 0 req) (.requestSet req)
  | .requestSet req =>
    if req.flags &&& bdtunReq .reqWrite ≠ 0 then
      match (tunnelNext t.world (bdtunGetRequestData 0 req req.size false).call).2 with
      | .ret _ (.data bytes) =>
        { t.call (bdtunGetRequestData 0 req req.size false) (.transferred req) with
          store := writeAt t.store req.offset bytes }
      | _ => { t with phase := .failed }
    else
      t.call (bdtunSendRequestData 0 req (readAt t.store req.offset req.size) req.size)
        (.transferred req)
  | .transferred _ =>
    { t.call (bdtunCompleteRequest 0) .idle with
      done := t.done ++ t.world.loaded
      kept := t.kept ++ t.world.loaded }
  | .failed => t

inductive Event
  /-- the submitter fills the segments with `data` and submits the bio -/
  | submit (bio : Bio) (data : List UInt8) (new : Option Addr)
  | scribble (p : Place) (byte : UInt8)
  | tick
  | client

/-- The bios the driver has. -/
def World.outstanding (s : World) : List Bio :=
  s.biosOf (s.dev.pendingBioList ++ s.dev.incomingBioList)

/-- No byte is in segments of both. -/
def Apart (b c : Bio) : Prop := ∀ l ∈ b.places, l ∉ c.places

/-- A data bio for a device: whole blocks in segments that hold them, inside the capacity. -/
structure DataBio (blockSize size : Nat) (bio : Bio) : Prop where
  pos : 0 < bio.biSize
  blocks : bio.biSize % blockSize = 0
  total : totalLen bio.segments = bio.biSize
  inside : bio.byteOffset + bio.biSize ≤ size / kernelSectorSize * kernelSectorSize
  nodup : bio.places.Nodup

/-- The completed bios that writes to some places leave alone. -/
def keep (l : List Loaded) (ps : List Place) : List Loaded :=
  l.filter fun d => ∀ p ∈ d.1.places, p ∉ ps

def Server.next (t : Server) : Event → Server
  | .submit bio data new =>
    let filled := { t.world with mem := scatter t.world.mem bio.places data }
    { t with
      world := (tunnelNext filled (.submit bio new)).1
      accepted := t.accepted ++ new.toList.map fun _ => (bio, data)
      kept := keep t.kept bio.places }
  | .scribble p byte =>
    { t with
      world := { t.world with mem := Function.update t.world.mem p byte }
      kept := keep t.kept [p] }
  | .tick => { t with world := (tunnelNext t.world .tick).1 }
  | .client => t.client

/-- Submitters keep off the segments of outstanding bios. -/
def Server.Enabled (blockSize size : Nat) (t : Server) : Event → Prop
  | .submit bio data new =>
    KmallocOk t.world (.submit bio new) ∧ DataBio blockSize size bio ∧
      data.length = bio.biSize ∧ ∀ other ∈ t.world.outstanding, Apart bio other
  | .scribble p _ => ∀ other ∈ t.world.outstanding, p ∉ other.places
  | _ => True

def server (blockSize size : Nat) : Machine Server Event Unit where
  enabled := Server.Enabled blockSize size
  next t e := (t.next e, ())

/-- A new device whose tunnel the client has opened. -/
def Server.start (blockSize size : Nat) (mem : Mem) (store : Store) : Server where
  world := (tunnelNext (World.init blockSize size mem) (.chOpen 0)).1
  store := store
  phase := .idle
  accepted := []
  done := []
  kept := []

/-! ## The calls of the client -/

theorem result_ok (l : LibCall) (out : Out) : l.result (.ret l.success out) = some 0 := by
  simp [LibCall.result]

/-- The device takes blocks of at least a sector, so no payload has the length of a header, an id or
a completion byte. -/
theorem size_ge {blockSize size : Nat} (hcreate : createCheck blockSize size = .ok ()) {bio : Bio}
    (hbio : DataBio blockSize size bio) : 512 ≤ bio.biSize := by
  have hblock : 512 ≤ blockSize := by
    unfold createCheck at hcreate
    split at hcreate
    · cases hcreate
    · omega
  have hle : blockSize ≤ bio.biSize :=
    Nat.le_of_dvd hbio.pos (Nat.dvd_of_mod_eq_zero hbio.blocks)
  omega

theorem header_offset (hbits : bitsPerLong = 64) {blockSize size : Nat} (hsize : size < 2 ^ 64)
    {entry : BioListEntry} (hbio : DataBio blockSize size entry.bio) (a : Addr) :
    (header a entry).offset = entry.bio.byteOffset := by
  have hinside := hbio.inside
  have hcap : size / kernelSectorSize * kernelSectorSize ≤ size := Nat.div_mul_le_self _ _
  have hlt : entry.bio.byteOffset < 2 ^ 64 := by omega
  show entry.bio.byteOffset % 2 ^ 64 % 2 ^ bitsPerLong = _
  rw [hbits, Nat.mod_eq_of_lt hlt, Nat.mod_eq_of_lt hlt]

theorem header_write_flag (a : Addr) (entry : BioListEntry) :
    (header a entry).flags &&& bdtunReq .reqWrite ≠ 0 ↔ bioDataDir entry.bio = dirWrite := by
  rw [bioDataDir_eq_write]
  exact translate_write _ _ _

/-- The request of the data-current entry. -/
structure Current (s : World) (req : Txreq) (entry : BioListEntry) : Prop where
  cur : s.dev.dataCurrentBio = req.id
  live : s.entries req.id = some entry
  made : req = header req.id entry

theorem Current.size {s : World} {req : Txreq} {entry : BioListEntry} (h : Current s req entry) :
    req.size = entry.bio.biSize := by
  rw [h.made]
  rfl

theorem get_data_next (hbits : bitsPerLong = 64) {s : World} {req : Txreq} {entry : BioListEntry}
    (h : Current s req entry) (hlarge : 512 ≤ entry.bio.biSize)
    (htotal : totalLen entry.bio.segments = entry.bio.biSize)
    (hdir : bioDataDir entry.bio = dirWrite) :
    tunnelNext s (bdtunGetRequestData 0 req req.size false).call =
      (s, .ret req.size (.data (gather s.mem entry.bio.places))) := by
  have hcount : req.size ≠ bdtunTxreqHeaderSize := by
    rw [h.size, bdtunTxreqHeaderSize, sizeofLong, hbits]
    omega
  show bdtunchRead s req.size req.size false = _
  rw [bdtunchRead, if_neg hcount, h.cur]
  exact readPayload_all h.live hdir h.size htotal (Nat.le_refl _)

theorem send_data_next (hbits : bitsPerLong = 64) {s : World} {req : Txreq} {entry : BioListEntry}
    (h : Current s req entry) (hlarge : 512 ≤ entry.bio.biSize)
    (htotal : totalLen entry.bio.segments = entry.bio.biSize)
    (hdir : bioDataDir entry.bio = dirRead) {buf : List UInt8} (hbuf : buf.length = req.size) :
    tunnelNext s (bdtunSendRequestData 0 req buf req.size).call =
      ({ s with mem := scatter s.mem entry.bio.places buf }, .ret req.size .nothing) := by
  have hsize := h.size
  have hlong : buf.length ≠ sizeofLong := by
    rw [hbuf, hsize, sizeofLong, hbits]
    omega
  show bdtunchWrite s (buf.take req.size) req.size = _
  rw [List.take_of_length_le (by omega), bdtunchWrite_payload s buf _ hlong (by omega), h.cur,
    writePayload_all h.live hdir (by omega) htotal (by omega), hbuf]

theorem complete_next {s : World} {req : Txreq} {entry : BioListEntry} (h : Current s req entry) :
    tunnelNext s (bdtunCompleteRequest 0).call = (s.finish req.id entry 0, .ret 1 .nothing) := by
  rw [completion_call]
  show bdtunchWrite s [0] 1 = _
  rw [bdtunchWrite_byte, h.cur]
  simp only [World.complete, h.live]
  rfl

/-! ## The invariant -/

/-- The client has the first of the outstanding bios in hand. -/
def InHand (s : World) (rest : List Loaded) (req : Txreq) : Prop :=
  ∃ entry p more, s.dev.pendingBioList = [req.id] ∧ s.entries req.id = some entry ∧
    req = header req.id entry ∧ rest = p :: more ∧ entry.bio = p.1

/-- Where the client stands, with the bios `fin` done and `rest` outstanding. -/
def Stands (store : Store) (t : Server) (fin rest : List Loaded) : Prop :=
  match t.phase with
  | .idle => t.world.dev.pendingBioList = [] ∧ t.store = applyAll store fin
  | .haveRequest req => InHand t.world rest req ∧ t.store = applyAll store fin
  | .requestSet req =>
    InHand t.world rest req ∧ t.world.dev.dataCurrentBio = req.id ∧ t.store = applyAll store fin
  | .transferred req =>
    InHand t.world rest req ∧ t.world.dev.dataCurrentBio = req.id ∧
      ∀ p more, rest = p :: more → t.store = applyAll store (fin ++ [p]) ∧
        (bioDataDir p.1 = dirRead → gather t.world.mem p.1.places =
          readAt (applyAll store fin) p.1.byteOffset p.1.biSize)
  | .failed => False

structure Serving (blockSize size : Nat) (store : Store) (t : Server) (fin rest : List Loaded) :
    Prop where
  wf : t.world.Wf
  accepted : t.accepted = fin ++ rest
  done : t.done.map Prod.fst = fin.map Prod.fst
  queue : (t.world.dev.pendingBioList ++ t.world.dev.incomingBioList).map t.world.bioAt =
    rest.map fun p => some p.1
  good : ∀ p ∈ rest, DataBio blockSize size p.1 ∧ p.2.length = p.1.biSize
  apart : rest.Pairwise fun p q => Apart p.1 q.1
  content : ∀ p ∈ rest, bioDataDir p.1 = dirWrite → gather t.world.mem p.1.places = p.2
  kept : ∀ d ∈ t.kept, gather t.world.mem d.1.places = d.2 ∧ ∀ p ∈ rest, Apart d.1 p.1
  answers : ∀ i bio data, t.done[i]? = some (bio, data) → bioDataDir bio = dirRead →
    data = readAt (applyAll store (fin.take i)) bio.byteOffset bio.biSize
  ended : t.world.ended.filter (fun e => e.2 = 0) = fin.map fun p => (p.1, 0)
  stands : Stands store t fin rest

variable {blockSize size : Nat} {store : Store} {t : Server} {fin rest : List Loaded}

theorem outstanding_eq (h : Serving blockSize size store t fin rest) :
    t.world.outstanding = rest.map Prod.fst := by
  have hbios : t.world.outstanding = ((t.world.dev.pendingBioList ++
      t.world.dev.incomingBioList).map t.world.bioAt).filterMap id := by
    rw [List.filterMap_map]
    rfl
  rw [hbios, h.queue, List.filterMap_map]
  exact congrFun List.filterMap_eq_map rest

theorem apart_gather {b c : Bio} (h : Apart b c) (mem : Mem) (data : List UInt8) :
    gather (scatter mem c.places data) b.places = gather mem b.places :=
  gather_scatter_of_disjoint mem b.places c.places data h

theorem Apart.symm {b c : Bio} (h : Apart b c) : Apart c b :=
  fun l hl hlb => h l hlb hl

/-- What the submitters do: bios are added at the end, and the rest is left alone. -/
theorem Serving.outside (h : Serving blockSize size store t fin rest) {t' : Server}
    (more : List Loaded) (news : List Addr) (hwf : t'.world.Wf) (hphase : t'.phase = t.phase)
    (hstore : t'.store = t.store) (hdone : t'.done = t.done)
    (haccepted : t'.accepted = t.accepted ++ more)
    (hpend : t'.world.dev.pendingBioList = t.world.dev.pendingBioList)
    (hcur : t'.world.dev.dataCurrentBio = t.world.dev.dataCurrentBio)
    (hent : ∀ a, (t.world.entries a).isSome → t'.world.entries a = t.world.entries a)
    (hinc : t'.world.dev.incomingBioList = t.world.dev.incomingBioList ++ news)
    (hnews : news.map t'.world.bioAt = more.map fun p => some p.1)
    (hmore : ∀ p ∈ more, DataBio blockSize size p.1 ∧ p.2.length = p.1.biSize ∧
      gather t'.world.mem p.1.places = p.2 ∧ ∀ q ∈ rest, Apart q.1 p.1)
    (hpair : more.Pairwise fun p q => Apart p.1 q.1)
    (hmem : ∀ p ∈ rest, gather t'.world.mem p.1.places = gather t.world.mem p.1.places)
    (hkept : ∀ d ∈ t'.kept, d ∈ t.kept ∧
      gather t'.world.mem d.1.places = gather t.world.mem d.1.places ∧
      ∀ p ∈ more, Apart d.1 p.1)
    (hended : t'.world.ended.filter (fun e => e.2 = 0) =
      t.world.ended.filter (fun e => e.2 = 0)) :
    Serving blockSize size store t' fin (rest ++ more) := by
  have hold : ∀ a ∈ t.world.dev.pendingBioList ++ t.world.dev.incomingBioList,
      t'.world.entries a = t.world.entries a := by
    intro a ha
    apply hent
    rw [h.wf.live, List.mem_append]
    exact (List.mem_append.mp ha).symm
  have hhand : ∀ req, InHand t.world rest req → InHand t'.world (rest ++ more) req := by
    rintro req ⟨entry, p, q, hp, he, hreq, rfl, hbio⟩
    refine ⟨entry, p, q ++ more, by rw [hpend, hp], ?_, hreq, rfl, hbio⟩
    rw [hold req.id (by rw [hp]; exact List.mem_cons_self), he]
  refine ⟨hwf, ?_, ?_, ?_, ?_, ?_, ?_, ?_, ?_, ?_, ?_⟩
  · rw [haccepted, h.accepted, List.append_assoc]
  · rw [hdone, h.done]
  · have hsame : (t.world.dev.pendingBioList ++ t.world.dev.incomingBioList).map t'.world.bioAt =
        rest.map fun p => some p.1 := by
      rw [← h.queue]
      refine List.map_congr_left ?_
      intro a ha
      rw [World.bioAt, World.bioAt, hold a ha]
    rw [hpend, hinc, ← List.append_assoc, List.map_append, hsame, hnews, List.map_append]
  · intro p hp
    rcases List.mem_append.mp hp with hp | hp
    · exact h.good p hp
    · exact ⟨(hmore p hp).1, (hmore p hp).2.1⟩
  · rw [List.pairwise_append]
    exact ⟨h.apart, hpair, fun q hq p hp => (hmore p hp).2.2.2 q hq⟩
  · intro p hp hdir
    rcases List.mem_append.mp hp with hp | hp
    · rw [hmem p hp]
      exact h.content p hp hdir
    · exact (hmore p hp).2.2.1
  · intro d hd
    obtain ⟨hold', hsame, hfar⟩ := hkept d hd
    refine ⟨hsame.trans (h.kept d hold').1, fun p hp => ?_⟩
    rcases List.mem_append.mp hp with hp | hp
    · exact (h.kept d hold').2 p hp
    · exact hfar p hp
  · rw [hdone]
    exact h.answers
  · rw [hended, h.ended]
  · have hstands := h.stands
    unfold Stands at hstands ⊢
    rw [hphase, hpend, hcur, hstore]
    cases hp : t.phase with
    | idle => rwa [hp] at hstands
    | haveRequest req =>
      rw [hp] at hstands
      exact ⟨hhand req hstands.1, hstands.2⟩
    | requestSet req =>
      rw [hp] at hstands
      exact ⟨hhand req hstands.1, hstands.2⟩
    | transferred req =>
      rw [hp] at hstands
      obtain ⟨hin, hc, hfirst⟩ := hstands
      refine ⟨hhand req hin, hc, fun p q hpq => ?_⟩
      obtain ⟨-, p', q', -, -, -, hrest, -⟩ := hin
      rw [hrest, List.cons_append] at hpq
      obtain ⟨rfl, -⟩ := List.cons.inj hpq
      obtain ⟨hst, hread⟩ := hfirst p' q' hrest
      refine ⟨hst, fun hdir => ?_⟩
      rw [hmem p' (by rw [hrest]; exact List.mem_cons_self)]
      exact hread hdir
    | failed => rwa [hp] at hstands

/-- What a submitter writes does not reach the completed bios that are kept. -/
theorem mem_keep {l : List Loaded} {ps : List Place} {d : Loaded} (h : d ∈ keep l ps) :
    d ∈ l ∧ ∀ p ∈ d.1.places, p ∉ ps := by
  obtain ⟨hd, hfar⟩ := List.mem_filter.mp h
  exact ⟨hd, by simpa using hfar⟩

theorem Serving.submit (h : Serving blockSize size store t fin rest) {bio : Bio}
    {data : List UInt8} {new : Option Addr} (he : t.Enabled blockSize size (.submit bio data new)) :
    ∃ more, Serving blockSize size store (t.next (.submit bio data new)) fin (rest ++ more) := by
  obtain ⟨hk, hbio, hlen, hapart⟩ := he
  rw [outstanding_eq h] at hapart
  have hfar : ∀ p ∈ rest, Apart p.1 bio := fun p hp =>
    (hapart p.1 (List.mem_map_of_mem hp)).symm
  have hfill : gather (scatter t.world.mem bio.places data) bio.places = data := by
    apply gather_scatter _ _ _ hbio.nodup
    rw [length_places, hbio.total, hlen]
  have hkeep : ∀ d ∈ keep t.kept bio.places, d ∈ t.kept ∧
      gather (scatter t.world.mem bio.places data) d.1.places = gather t.world.mem d.1.places ∧
      Apart d.1 bio := by
    intro d hd
    obtain ⟨hin, hout⟩ := mem_keep hd
    exact ⟨hin, apart_gather hout _ _, hout⟩
  cases new with
  | none =>
    refine ⟨[], h.outside [] [] ?_ rfl rfl rfl rfl rfl rfl (fun _ _ => rfl) ?_ rfl
      (by simp) List.Pairwise.nil ?_ ?_ ?_⟩
    · exact h.wf.congr rfl rfl rfl
    · exact (List.append_nil _).symm
    · exact fun p hp => apart_gather (hfar p hp) _ _
    · intro d hd
      obtain ⟨hin, hsame, -⟩ := hkeep d hd
      exact ⟨hin, hsame, by simp⟩
    · show (t.world.ended ++ [(bio, -eio)]).filter (fun e => e.2 = 0) = _
      simp [List.filter_append, eio]
  | some new =>
    have hwf : (t.next (.submit bio data (some new))).world.Wf := by
      have hfilled : ({ t.world with mem := scatter t.world.mem bio.places data } : World).Wf :=
        h.wf.congr rfl rfl rfl
      exact (hfilled.publish bio hk.1 hk.2).congr rfl rfl rfl
    have hnew : (t.next (.submit bio data (some new))).world.bioAt new = some bio := by
      simp [Server.next, tunnelNext, bdtunMakeRequest, World.bioAt]
    refine ⟨[(bio, data)], h.outside [(bio, data)] [new] hwf rfl rfl rfl rfl rfl rfl ?_
      rfl ?_ ?_ (List.pairwise_singleton _ _) ?_ ?_ rfl⟩
    · intro a ha
      have hne : a ≠ new := by
        rintro rfl
        rw [hk.1] at ha
        cases ha
      exact Function.update_of_ne hne _ _
    · rw [List.map_singleton, List.map_singleton, hnew]
    · intro p hp
      obtain rfl := List.mem_singleton.mp hp
      exact ⟨hbio, hlen, hfill, hfar⟩
    · exact fun p hp => apart_gather (hfar p hp) _ _
    · intro d hd
      obtain ⟨hin, hsame, hout⟩ := hkeep d hd
      refine ⟨hin, hsame, fun p hp => ?_⟩
      obtain rfl := List.mem_singleton.mp hp
      exact hout

theorem Serving.scribble (h : Serving blockSize size store t fin rest) {p : Place} {byte : UInt8}
    (he : t.Enabled blockSize size (.scribble p byte)) :
    Serving blockSize size store (t.next (.scribble p byte)) fin (rest ++ []) := by
  have hout : ∀ q ∈ rest, p ∉ q.1.places := by
    intro q hq
    apply he q.1
    rw [outstanding_eq h]
    exact List.mem_map_of_mem hq
  have hsame : ∀ b : Bio, p ∉ b.places →
      gather (Function.update t.world.mem p byte) b.places = gather t.world.mem b.places := by
    intro b hb
    exact gather_congr fun l hl => Function.update_of_ne (fun heq : l = p => hb (heq ▸ hl)) _ _
  refine h.outside [] [] (h.wf.congr rfl rfl rfl) rfl rfl rfl
    (List.append_nil _).symm rfl rfl (fun _ _ => rfl) (List.append_nil _).symm rfl (by simp)
    List.Pairwise.nil ?_ ?_ rfl
  · exact fun q hq => hsame q.1 (hout q hq)
  · intro d hd
    obtain ⟨hin, hfar⟩ := mem_keep hd
    refine ⟨hin, hsame d.1 fun hp => ?_, by simp⟩
    exact hfar p hp (List.mem_singleton.mpr rfl)

theorem Serving.tick (h : Serving blockSize size store t fin rest) :
    Serving blockSize size store (t.next .tick) fin (rest ++ []) :=
  h.outside [] [] (h.wf.congr rfl rfl rfl) rfl rfl rfl (List.append_nil _).symm rfl rfl
    (fun _ _ => rfl) (List.append_nil _).symm rfl (by simp) List.Pairwise.nil (fun _ _ => rfl)
    (fun d hd => ⟨hd, rfl, by simp⟩) rfl

/-- A call of the client that ends no bio. -/
theorem Serving.move (h : Serving blockSize size store t fin rest) {t' : Server}
    (hwf : t'.world.Wf) (haccepted : t'.accepted = t.accepted) (hdone : t'.done = t.done)
    (hkept : t'.kept = t.kept) (hent : t'.world.entries = t.world.entries)
    (hqueue : t'.world.dev.pendingBioList ++ t'.world.dev.incomingBioList =
      t.world.dev.pendingBioList ++ t.world.dev.incomingBioList)
    (hended : t'.world.ended = t.world.ended)
    (hwrites : ∀ p ∈ rest, bioDataDir p.1 = dirWrite →
      gather t'.world.mem p.1.places = gather t.world.mem p.1.places)
    (hmem : ∀ d ∈ t.kept, gather t'.world.mem d.1.places = gather t.world.mem d.1.places)
    (hstands : Stands store t' fin rest) : Serving blockSize size store t' fin rest := by
  have hbio : t'.world.bioAt = t.world.bioAt := by
    funext a
    rw [World.bioAt, World.bioAt, hent]
  refine ⟨hwf, ?_, ?_, ?_, h.good, h.apart, ?_, ?_, ?_, ?_, hstands⟩
  · rw [haccepted, h.accepted]
  · rw [hdone, h.done]
  · rw [hqueue, hbio, h.queue]
  · intro p hp hdir
    rw [hwrites p hp hdir]
    exact h.content p hp hdir
  · rw [hkept]
    intro d hd
    rw [hmem d hd]
    exact h.kept d hd
  · rw [hdone]
    exact h.answers
  · rw [hended, h.ended]

theorem call_ok {l : LibCall} {world : World} {out : Out}
    (h : tunnelNext t.world l.call = (world, .ret l.success out)) (phase : Phase) :
    t.call l phase = { t with world := world, phase := phase } := by
  unfold Server.call
  rw [h, result_ok, if_pos rfl]

theorem Serving.client_idle (h : Serving blockSize size store t fin rest) (hp : t.phase = .idle) :
    Serving blockSize size store t.client fin rest := by
  have hstands := h.stands
  unfold Stands at hstands
  rw [hp] at hstands
  obtain ⟨hpend, hstore⟩ := hstands
  rcases read_request_next h.wf 0 false with ⟨-, hnext⟩ | ⟨a, incoming, entry, hl, he, hnext⟩
  · have hclient : t.client = { t with phase := .idle } := by
      unfold Server.client
      rw [hp, hnext]
      rfl
    rw [hclient]
    exact h.move h.wf rfl rfl rfl rfl rfl rfl (fun _ _ _ => rfl) (fun _ _ => rfl) ⟨hpend, hstore⟩
  · have hclient : t.client =
        { t with world := t.world.deliver a incoming entry, phase := .haveRequest (header a entry) } := by
      unfold Server.client
      rw [hp, hnext]
    have hqueue := h.queue
    rw [hpend, hl] at hqueue
    obtain ⟨p, more, hrest⟩ : ∃ p more, rest = p :: more := by
      cases rest with
      | nil => cases hqueue
      | cons p more => exact ⟨p, more, rfl⟩
    have hbio : entry.bio = p.1 := by
      rw [hrest, List.nil_append, List.map_cons, List.map_cons, bioAt_of_entry he] at hqueue
      exact Option.some.inj (List.cons.inj hqueue).1
    rw [hclient]
    refine h.move (h.wf.deliver hl entry) rfl rfl rfl rfl ?_ rfl (fun _ _ _ => rfl)
      (fun _ _ => rfl) ⟨⟨entry, p, more, ?_, he, rfl, hrest, hbio⟩, hstore⟩
    · simp [hpend, hl]
    · simp [hpend, header]

theorem Serving.client_set (h : Serving blockSize size store t fin rest) {req : Txreq}
    (hp : t.phase = .haveRequest req) : Serving blockSize size store t.client fin rest := by
  have hstands := h.stands
  unfold Stands at hstands
  rw [hp] at hstands
  obtain ⟨⟨entry, p, more, hpend, he, hreq, hrest, hbio⟩, hstore⟩ := hstands
  obtain ⟨-, hnext⟩ := set_request_next h.wf 0 req he
  have hclient : t.client =
      { t with world := t.world.setCurrent req.id, phase := .requestSet req } := by
    unfold Server.client
    rw [hp]
    exact call_ok hnext _
  rw [hclient]
  exact h.move (h.wf.congr rfl rfl rfl) rfl rfl rfl rfl rfl rfl (fun _ _ _ => rfl) (fun _ _ => rfl)
    ⟨⟨entry, p, more, hpend, he, hreq, hrest, hbio⟩, rfl, hstore⟩

theorem Serving.client_transfer (hbits : bitsPerLong = 64)
    (hcreate : createCheck blockSize size = .ok ()) (hsize : size < 2 ^ 64)
    (h : Serving blockSize size store t fin rest) {req : Txreq} (hp : t.phase = .requestSet req) :
    Serving blockSize size store t.client fin rest := by
  have hstands := h.stands
  unfold Stands at hstands
  rw [hp] at hstands
  obtain ⟨⟨entry, p, more, hpend, he, hreq, hrest, hbio⟩, hcur, hstore⟩ := hstands
  have hhead : p ∈ rest := by rw [hrest]; exact List.mem_cons_self
  obtain ⟨hdata, -⟩ := h.good p hhead
  rw [← hbio] at hdata
  have hcurrent : Current t.world req entry := ⟨hcur, he, hreq⟩
  have hlarge := size_ge hcreate hdata
  have hoffset : req.offset = p.1.byteOffset := by
    rw [hreq, header_offset hbits hsize hdata, hbio]
  have hflag : req.flags &&& bdtunReq .reqWrite ≠ 0 ↔ bioDataDir p.1 = dirWrite := by
    rw [hreq, header_write_flag, hbio]
  by_cases hdir : bioDataDir p.1 = dirWrite
  · have hnext := get_data_next hbits hcurrent hlarge hdata.total (by rw [hbio]; exact hdir)
    have hbytes : gather t.world.mem entry.bio.places = p.2 := by
      rw [hbio]
      exact h.content p hhead hdir
    rw [hbytes] at hnext
    have hclient : t.client =
        { t with phase := .transferred req, store := writeAt t.store req.offset p.2 } := by
      unfold Server.client
      rw [hp]
      simp only [if_pos (hflag.mpr hdir), hnext, call_ok hnext]
    rw [hclient]
    refine h.move h.wf rfl rfl rfl rfl rfl rfl (fun _ _ _ => rfl) (fun _ _ => rfl)
      ⟨⟨entry, p, more, hpend, he, hreq, hrest, hbio⟩, hcur, fun q rest' hq => ?_⟩
    rw [hrest] at hq
    obtain ⟨rfl, -⟩ := List.cons.inj hq
    refine ⟨?_, fun hread => absurd hdir ((bioDataDir_eq_read _).mp hread)⟩
    rw [applyAll_snoc, applyBio, if_pos hdir, ← hstore, ← hoffset]
  · have hread : bioDataDir p.1 = dirRead := (bioDataDir_eq_read _).mpr hdir
    have hnext := send_data_next hbits hcurrent hlarge hdata.total (by rw [hbio]; exact hread)
      (length_readAt t.store req.offset req.size)
    rw [hbio] at hnext
    have hclient : t.client =
        { t with
          world := { t.world with
            mem := scatter t.world.mem p.1.places (readAt t.store req.offset req.size) }
          phase := .transferred req } := by
      unfold Server.client
      rw [hp]
      simp only [if_neg (mt hflag.mp hdir)]
      exact call_ok hnext _
    have hapart := h.apart
    rw [hrest, List.pairwise_cons] at hapart
    rw [hclient]
    refine h.move (h.wf.congr rfl rfl rfl) rfl rfl rfl rfl rfl rfl (fun q hq hwrite => ?_)
      (fun d hd => ?_) ⟨⟨entry, p, more, hpend, he, hreq, hrest, hbio⟩, hcur, fun q rest' hq => ?_⟩
    · rw [hrest] at hq
      rcases List.mem_cons.mp hq with rfl | hq
      · exact absurd hwrite hdir
      · exact apart_gather (hapart.1 q hq).symm _ _
    · exact apart_gather ((h.kept d hd).2 p hhead) _ _
    · rw [hrest] at hq
      obtain ⟨rfl, -⟩ := List.cons.inj hq
      rw [applyAll_snoc, applyBio, if_neg hdir]
      refine ⟨hstore, fun _ => ?_⟩
      have hgot : gather (scatter t.world.mem p.1.places (readAt t.store req.offset req.size))
          p.1.places = readAt t.store req.offset req.size := by
        apply gather_scatter _ _ _ (hbio ▸ hdata.nodup)
        rw [length_readAt, length_places, ← hbio, hdata.total, hcurrent.size]
      show gather (scatter _ _ _) _ = _
      rw [hgot, hstore, hoffset, hcurrent.size, hbio]

theorem Serving.client_complete (h : Serving blockSize size store t fin rest) {req : Txreq}
    (hp : t.phase = .transferred req) :
    ∃ p more, Serving blockSize size store t.client (fin ++ [p]) more := by
  have hstands := h.stands
  unfold Stands at hstands
  rw [hp] at hstands
  obtain ⟨⟨entry, p, more, hpend, he, hreq, rfl, hbio⟩, hcur, hfirst⟩ := hstands
  obtain ⟨hstore, hread⟩ := hfirst p more rfl
  have hnext := complete_next ⟨hcur, he, hreq⟩
  have hloaded : t.world.loaded = [(p.1, gather t.world.mem p.1.places)] := by
    rw [World.loaded, hcur, bioAt_of_entry he, hbio]
    rfl
  have hclient : t.client =
      { t with
        world := t.world.finish req.id entry 0
        phase := .idle
        done := t.done ++ [(p.1, gather t.world.mem p.1.places)]
        kept := t.kept ++ [(p.1, gather t.world.mem p.1.places)] } := by
    unfold Server.client
    rw [hp]
    simp only [call_ok hnext, hloaded]
  have hnotin : req.id ∉ t.world.dev.incomingBioList :=
    h.wf.not_incoming (by rw [hpend]; exact List.mem_cons_self)
  have hqueue := h.queue
  rw [hpend, List.singleton_append, List.map_cons, List.map_cons] at hqueue
  have hapart := List.pairwise_cons.mp h.apart
  have hlen : t.done.length = fin.length := by
    rw [← List.length_map Prod.fst, h.done, List.length_map]
  refine ⟨p, more, ?_⟩
  rw [hclient]
  refine ⟨h.wf.finish _ _ _, ?_, ?_, ?_, ?_, hapart.2, ?_, ?_, ?_, ?_, ?_⟩
  · rw [h.accepted, List.append_assoc]
    rfl
  · rw [List.map_append, List.map_append, h.done]
    rfl
  · show (t.world.dev.pendingBioList.erase req.id ++ t.world.dev.incomingBioList.erase req.id).map
      _ = _
    rw [hpend, List.erase_cons_head, List.nil_append, List.erase_of_not_mem hnotin,
      ← (List.cons.inj hqueue).2]
    refine List.map_congr_left ?_
    intro a ha
    have hne : a ≠ req.id := fun heq => hnotin (heq ▸ ha)
    simp [World.bioAt, World.finish, hne]
  · exact fun q hq => h.good q (List.mem_cons_of_mem _ hq)
  · exact fun q hq hdir => h.content q (List.mem_cons_of_mem _ hq) hdir
  · intro d hd
    rcases List.mem_append.mp hd with hd | hd
    · exact ⟨(h.kept d hd).1, fun q hq => (h.kept d hd).2 q (List.mem_cons_of_mem _ hq)⟩
    · obtain rfl := List.mem_singleton.mp hd
      exact ⟨rfl, hapart.1⟩
  · intro i bio data hi hdir
    rcases Nat.lt_trichotomy i t.done.length with hlt | rfl | hgt
    · rw [List.getElem?_append_left hlt] at hi
      rw [List.take_append_of_le_length (by omega)]
      exact h.answers i bio data hi hdir
    · rw [List.getElem?_concat_length, Option.some.injEq, Prod.mk.injEq] at hi
      obtain ⟨rfl, rfl⟩ := hi
      rw [hlen, List.take_left]
      exact hread hdir
    · rw [List.getElem?_eq_none (by rw [List.length_append, List.length_singleton]; omega)] at hi
      cases hi
  · show (t.world.ended ++ [(entry.bio, (0 : Int))]).filter (fun e => e.2 = 0) = _
    rw [List.filter_append, h.ended, List.map_append, hbio]
    rfl
  · refine ⟨?_, hstore⟩
    show t.world.dev.pendingBioList.erase req.id = []
    rw [hpend, List.erase_cons_head]

theorem Serving.next (hbits : bitsPerLong = 64) (hcreate : createCheck blockSize size = .ok ())
    (hsize : size < 2 ^ 64) (h : Serving blockSize size store t fin rest) (e : Event)
    (he : t.Enabled blockSize size e) :
    ∃ fin' rest', Serving blockSize size store (t.next e) fin' rest' := by
  cases e with
  | submit bio data new =>
    obtain ⟨more, hmore⟩ := h.submit he
    exact ⟨fin, _, hmore⟩
  | scribble p byte => exact ⟨fin, _, h.scribble he⟩
  | tick => exact ⟨fin, _, h.tick⟩
  | client =>
    show ∃ fin' rest', Serving blockSize size store t.client fin' rest'
    cases hp : t.phase with
    | idle => exact ⟨fin, rest, h.client_idle hp⟩
    | haveRequest req => exact ⟨fin, rest, h.client_set hp⟩
    | requestSet req => exact ⟨fin, rest, h.client_transfer hbits hcreate hsize hp⟩
    | transferred req =>
      obtain ⟨p, more, hdone⟩ := h.client_complete hp
      exact ⟨_, more, hdone⟩
    | failed =>
      have hstands := h.stands
      unfold Stands at hstands
      rw [hp] at hstands
      exact hstands.elim

abbrev anybody : Policy Event Unit := fun _ _ => True

theorem run_serving {mem : Mem} {tr : List (Event × Unit)} (hbits : bitsPerLong = 64)
    (hcreate : createCheck blockSize size = .ok ()) (hsize : size < 2 ^ 64)
    (hrun : Run (server blockSize size) anybody (Server.start blockSize size mem store) tr t) :
    ∃ fin rest, Serving blockSize size store t fin rest := by
  refine hrun.invariant (fun _ t => ∃ fin rest, Serving blockSize size store t fin rest) ?_ ?_
  · refine ⟨[], [], ?_, rfl, rfl, rfl, by simp, List.Pairwise.nil, by simp, ?_, ?_, rfl, rfl, rfl⟩
    · exact (World.Wf.init blockSize size mem).congr rfl rfl rfl
    · intro d hd
      cases hd
    · intro i bio data hi
      cases hi
  · rintro _ t e ⟨fin, rest, h⟩ - he
    exact h.next hbits hcreate hsize e he

/-- **The tunnel is transparent.**  Let `unsigned long` have 64 bits and let the block size and the
size pass the checks on creation.  In every run of the serial client: none of its calls fails; the
bios it completed are the first of those that got a list entry, in order; each was ended with status
0, and no other was; when the client has no request in hand, its store is what the byte array is
after these bios; the segments of a read held, when it was completed, what the byte array held after
the bios before it; and they still do unless a submitter has written to them. -/
theorem transparent {mem : Mem} {tr : List (Event × Unit)} (hbits : bitsPerLong = 64)
    (hcreate : createCheck blockSize size = .ok ()) (hsize : size < 2 ^ 64)
    (hrun : Run (server blockSize size) anybody (Server.start blockSize size mem store) tr t) :
    t.phase ≠ .failed ∧
    t.done.map Prod.fst = (t.accepted.take t.done.length).map Prod.fst ∧
    t.world.ended.filter (fun e => e.2 = 0) = (t.done.map Prod.fst).map (fun bio => (bio, 0)) ∧
    (t.phase = .idle → t.store = applyAll store (t.accepted.take t.done.length)) ∧
    (∀ i bio data, t.done[i]? = some (bio, data) → bioDataDir bio = dirRead →
      data = readAt (applyAll store (t.accepted.take i)) bio.byteOffset bio.biSize) ∧
    (∀ d ∈ t.kept, gather t.world.mem d.1.places = d.2) := by
  obtain ⟨fin, rest, h⟩ := run_serving hbits hcreate hsize hrun
  have hstands := h.stands
  unfold Stands at hstands
  have hlen : t.done.length = fin.length := by
    rw [← List.length_map Prod.fst, h.done, List.length_map]
  have htake : t.accepted.take t.done.length = fin := by
    rw [h.accepted, hlen, List.take_left]
  refine ⟨?_, ?_, ?_, ?_, ?_, fun d hd => (h.kept d hd).1⟩
  · intro hfailed
    rw [hfailed] at hstands
    exact hstands
  · rw [htake, h.done]
  · rw [h.ended, h.done, List.map_map]
    rfl
  · intro hidle
    rw [hidle] at hstands
    rw [htake]
    exact hstands.2
  · intro i bio data hi hdir
    obtain ⟨hlt, -⟩ := List.getElem?_eq_some_iff.mp hi
    rw [h.accepted, List.take_append_of_le_length (by omega)]
    exact h.answers i bio data hi hdir

end

section
attribute [local instance] linux32

theorem sampleWrite_data : DataBio 512 1024 sampleWrite := by
  refine ⟨by decide, by decide, by decide, by decide, ?_⟩
  show ([BioVec.sector 7].flatMap BioVec.places).Nodup
  rw [List.flatMap_singleton]
  exact BioVec.nodup_places _

/-- One write, served. -/
theorem transparent_sample :
    (exec (server 512 1024) (Server.start 512 1024 (fun _ => 0) fun _ => 0)
      [.submit sampleWrite (List.replicate 512 7) (some 16), .client, .client, .client,
        .client]).phase ≠ .failed := by
  have hstart : Run (server 512 1024) anybody (Server.start 512 1024 (fun _ => 0) fun _ => 0) [] _ :=
    .refl
  have hsubmit := hstart.step (Event.submit sampleWrite (List.replicate 512 7) (some 16)) trivial
    ⟨by decide, sampleWrite_data, List.length_replicate, fun other hother => nomatch hother⟩
  have hread := hsubmit.step Event.client trivial trivial
  have hset := hread.step Event.client trivial trivial
  have hget := hset.step Event.client trivial trivial
  have hcomplete := hget.step Event.client trivial trivial
  exact (transparent rfl rfl (by decide) hcomplete).1

end

end BDTun
