import BDTun.Census
import BDTun.Near
import BDTun.Transparent

/-!
# A device that a client serves among others

* `Client`: the loop of read, set, transfer and complete on the tunnel of one device.
* `Nearby`: a device among others, and the same device alone, as far as such a
  client can tell.
* `Hosted`: a device with its client is near to a server that serves alone; what
  the client does to it (`Hosted.client`), what a submitter does (`Hosted.submit`),
  and what the others do (`Hosted.other`).
-/

namespace BDTun

open Memory Machine

section
variable [Kernel]

/-! ## The client -/

/-- A client, and what its device was given since it was created. -/
structure Client where
  store : Store
  phase : Phase
  /-- the store when the device was created -/
  base : Store
  /-- the bios that got a list entry, with what their segments held on submission -/
  accepted : List Loaded
  /-- the bios the client completed, with what their segments held then -/
  done : List Loaded

/-- The library call that comes next. -/
def Client.call (k : Client) : Option LibCall :=
  match k.phase with
  | .idle => some (bdtunReadRequest 0 false)
  | .haveRequest req => some (bdtunSetRequest 0 req)
  | .requestSet req =>
    if req.flags &&& bdtunReq .reqWrite ≠ 0 then some (bdtunGetRequestData 0 req req.size false)
    else some (bdtunSendRequestData 0 req (readAt k.store req.offset req.size) req.size)
  | .transferred _ => some (bdtunCompleteRequest 0)
  | .failed => none

/-- The client after the answer; `loaded` is what the data-current bio held. -/
def Client.after (k : Client) (l : LibCall) (loaded : List Loaded) (r : Ret) : Client :=
  match k.phase with
  | .idle =>
    match r with
    | .ret _ (.header req) => { k with phase := .haveRequest req }
    | .sleep => k
    | _ => { k with phase := .failed }
  | .haveRequest req => { k with phase := if l.result r = some 0 then .requestSet req else .failed }
  | .requestSet req =>
    { k with
      store := match r with
        | .ret _ (.data bytes) => writeAt k.store req.offset bytes
        | _ => k.store
      phase := if l.result r = some 0 then .transferred req else .failed }
  | .transferred _ =>
    { k with
      phase := if l.result r = some 0 then .idle else .failed
      done := k.done ++ loaded }
  | .failed => k

/-- With a new device. -/
def Client.renew (k : Client) : Client :=
  { k with phase := .idle, base := k.store, accepted := [], done := [] }

/-! ## A device among others and alone -/

/-- `w` has the lists and the cursor of `v`, and the same bios on them with the same bytes. -/
structure Nearby (v w : World) : Prop where
  incoming : w.dev.incomingBioList = v.dev.incomingBioList
  pending : w.dev.pendingBioList = v.dev.pendingBioList
  cursor : w.dev.dataCurrentBio = v.dev.dataCurrentBio
  bios : ∀ a ∈ v.dev.incomingBioList ++ v.dev.pendingBioList, w.bioAt a = v.bioAt a
  bytes : ∀ a ∈ v.dev.incomingBioList ++ v.dev.pendingBioList, ∀ bio, v.bioAt a = some bio →
    gather w.mem bio.places = gather v.mem bio.places

variable {v w : World}

/-- The same in a state where nothing of the device has changed. -/
theorem Nearby.congr (hn : Nearby v w) {v' : World}
    (hi : v'.dev.incomingBioList = v.dev.incomingBioList)
    (hp : v'.dev.pendingBioList = v.dev.pendingBioList)
    (hc : v'.dev.dataCurrentBio = v.dev.dataCurrentBio)
    (hb : ∀ a ∈ v.dev.incomingBioList ++ v.dev.pendingBioList, v'.bioAt a = v.bioAt a)
    (hm : ∀ a ∈ v.dev.incomingBioList ++ v.dev.pendingBioList, ∀ bio, v.bioAt a = some bio →
      gather v'.mem bio.places = gather v.mem bio.places) : Nearby v' w := by
  refine ⟨hn.incoming.trans hi.symm, hn.pending.trans hp.symm, hn.cursor.trans hc.symm,
    fun a ha => ?_, fun a ha bio hbio => ?_⟩
  · rw [hi, hp] at ha
    rw [hn.bios a ha, hb a ha]
  · rw [hi, hp] at ha
    rw [hb a ha] at hbio
    rw [hn.bytes a ha bio hbio, hm a ha bio hbio]

/-- The data-current request of the device alone is that of the device among others. -/
theorem Nearby.current (hn : Nearby v w) {req : Txreq} {entry : BioListEntry}
    (hc : Current w req entry) (hp : v.dev.pendingBioList = [req.id]) :
    ∃ entry', Current v req entry' ∧ entry'.bio = entry.bio := by
  have hmem : req.id ∈ v.dev.incomingBioList ++ v.dev.pendingBioList := by
    rw [hp]
    exact List.mem_append_right _ List.mem_cons_self
  have hbio := hn.bios req.id hmem
  rw [bioAt_of_entry hc.live] at hbio
  obtain ⟨entry', hentry, hsame⟩ := Option.map_eq_some_iff.mp hbio.symm
  refine ⟨entry', ⟨hn.cursor.symm.trans hc.cur, hentry, ?_⟩, hsame⟩
  rw [hc.made, header, header, hsame]

/-- The bios of a driver. -/
def Driver.bioAt (s : Driver) (a : Addr) : Option Bio := (s.entries a).map BioListEntry.bio

/-- Whole sectors at an offset of 64 bits, as in the bios of any capacity, and segments that hold
them. -/
abbrev SectorBio (bio : Bio) : Prop :=
  DataBio kernelSectorSize (2 ^ 64 - kernelSectorSize) bio

/-- A listed device with its client, and a server that serves alone. -/
structure Hosted (s : Driver) (d : Device) (k : Client) (t : Server) (fin rest : List Loaded) :
    Prop where
  serving : Serving kernelSectorSize (2 ^ 64 - kernelSectorSize) k.base t fin rest
  phase : t.phase = k.phase
  store : t.store = k.store
  accepted : t.accepted = k.accepted
  done : t.done = k.done
  near : Nearby (s.world d) t.world
  ended : ∀ e ∈ t.world.ended, e ∈ s.ended

variable {s s' : Driver} {d d' : Device} {k : Client} {t : Server} {fin rest : List Loaded}
  {l : LibCall} {req : Txreq}

/-- The sizes of a server fit every device. -/
theorem sectors_ok : createCheck kernelSectorSize (2 ^ 64 - kernelSectorSize) = .ok () := by
  have hpage : 2 ^ 12 ≤ pageSize := Nat.pow_le_pow_right (by decide) Kernel.pageShift_ge
  have hbounds : ¬ (kernelSectorSize < 512 ∨ kernelSectorSize > pageSize) := by
    unfold kernelSectorSize
    omega
  rw [createCheck, if_neg hbounds, if_neg (by decide), if_neg (by decide)]

/-- A server for a new device. -/
theorem Hosted.new (hbits : bitsPerLong = 64) (mem : Mem)
    (hd : ∀ blockSize size, SameQueues d.toBdtun (newBdtun blockSize size)) (k : Client) :
    Hosted s d k.renew
      (Server.start kernelSectorSize (2 ^ 64 - kernelSectorSize) mem k.store) [] [] := by
  obtain ⟨fin, rest, hserving⟩ := run_serving hbits sectors_ok (by decide)
    (.refl : Run (server kernelSectorSize (2 ^ 64 - kernelSectorSize)) anybody
      (Server.start kernelSectorSize (2 ^ 64 - kernelSectorSize) mem k.store) [] _)
  obtain ⟨rfl, rfl⟩ := List.append_eq_nil_iff.mp hserving.accepted.symm
  have hsame := hd 0 0
  have hi : d.incomingBioList = [] := hsame.incoming.symm
  have hp : d.pendingBioList = [] := hsame.pending.symm
  refine ⟨hserving, rfl, rfl, rfl, rfl, ⟨hi.symm, hp.symm, hsame.cursor, fun a ha => ?_,
    fun a ha => ?_⟩, fun e he => by cases he⟩
  · have hmem : a ∈ d.incomingBioList ++ d.pendingBioList := ha
    rw [hi, hp] at hmem
    cases hmem
  · have hmem : a ∈ d.incomingBioList ++ d.pendingBioList := ha
    rw [hi, hp] at hmem
    cases hmem

/-- A client with no request in hand has none pending. -/
theorem Hosted.idle (hs : Hosted s d k t fin rest) (hp : k.phase = .idle) :
    d.pendingBioList = [] := by
  have hstands := hs.serving.stands
  unfold Stands at hstands
  rw [hs.phase, hp] at hstands
  exact hs.near.pending.symm.trans hstands.1

/-- What is on the lists of a device that serves alone. -/
theorem Hosted.alone (hs : Hosted s d k t fin rest) {other : Bio} (ho : other ∈ t.world.outstanding) :
    ∃ a ∈ d.bioList, s.bioAt a = some other := by
  obtain ⟨a, ha, hbio⟩ := List.mem_filterMap.mp ho
  have hmem : a ∈ d.bioList := by
    rw [hs.near.pending, hs.near.incoming] at ha
    exact (List.perm_append_comm.mem_iff).mp ha
  exact ⟨a, hmem, (hs.near.bios a hmem).symm.trans hbio⟩

/-- What the others do. -/
theorem Hosted.other (hs : Hosted s d k t fin rest)
    (hi : d'.incomingBioList = d.incomingBioList) (hp : d'.pendingBioList = d.pendingBioList)
    (hc : d'.dataCurrentBio = d.dataCurrentBio) (hb : ∀ a ∈ d.bioList, s'.bioAt a = s.bioAt a)
    (hm : ∀ a ∈ d.bioList, ∀ bio, s.bioAt a = some bio →
      gather s'.mem bio.places = gather s.mem bio.places)
    (he : ∀ e ∈ s.ended, e ∈ s'.ended) : Hosted s' d' k t fin rest where
  serving := hs.serving
  phase := hs.phase
  store := hs.store
  accepted := hs.accepted
  done := hs.done
  near := hs.near.congr hi hp hc hb hm
  ended e hmem := he e (hs.ended e hmem)

/-! ## What a hosted device comes to -/

theorem Hosted.not_failed (hs : Hosted s d k t fin rest) : k.phase ≠ .failed := by
  intro hfailed
  have hstands := hs.serving.stands
  unfold Stands at hstands
  rw [hs.phase, hfailed] at hstands
  exact hstands

theorem Hosted.done_bios (hs : Hosted s d k t fin rest) :
    k.done.map Prod.fst = fin.map Prod.fst := by
  rw [← hs.done, hs.serving.done]

theorem Hosted.done_length (hs : Hosted s d k t fin rest) : k.done.length = fin.length := by
  rw [← List.length_map Prod.fst, hs.done_bios, List.length_map]

theorem Hosted.split (hs : Hosted s d k t fin rest) : k.accepted = fin ++ rest :=
  hs.accepted.symm.trans hs.serving.accepted

theorem Hosted.taken (hs : Hosted s d k t fin rest) : k.accepted.take k.done.length = fin := by
  rw [hs.split, hs.done_length, List.take_left]

/-- The bios that the client completed are the first that were accepted, and were ended. -/
theorem Hosted.right (hs : Hosted s d k t fin rest) :
    k.done.map Prod.fst = (k.accepted.take k.done.length).map Prod.fst ∧
      ∀ p ∈ k.done, (p.1, 0) ∈ s.ended := by
  refine ⟨by rw [hs.taken, hs.done_bios], fun p hp => ?_⟩
  have hbio : p.1 ∈ fin.map Prod.fst := by
    rw [← hs.done_bios]
    exact List.mem_map_of_mem hp
  obtain ⟨q, hq, hsame⟩ := List.mem_map.mp hbio
  have hended : (p.1, (0 : Int)) ∈ t.world.ended.filter fun e => e.2 = 0 := by
    rw [hs.serving.ended, ← hsame]
    exact List.mem_map_of_mem hq
  exact hs.ended _ (List.mem_filter.mp hended).1

/-! ## What the client does -/

/-- What the client does to its device, and to nothing else. -/
structure Acted (s : Driver) (d : Device) (k : Client) (l : LibCall) (t : Server) : Prop where
  ok : (tunnelNext (s.world d) l.call).2 ≠ .oops
  near : Nearby (tunnelNext (s.world d) l.call).1 t.client.world
  client : t.client.phase = (k.after l (s.world d).loaded (tunnelNext (s.world d) l.call).2).phase ∧
    t.client.store = (k.after l (s.world d).loaded (tunnelNext (s.world d) l.call).2).store ∧
    t.client.accepted = k.accepted ∧
    t.client.done = (k.after l (s.world d).loaded (tunnelNext (s.world d) l.call).2).done
  ended : ∀ e ∈ t.client.world.ended, e ∈ (tunnelNext (s.world d) l.call).1.ended
  frees : ∀ a ∈ l.call.frees d.dataCurrentBio, a ∈ d.bioList
  pages : ∀ b : Bio, (∀ a ∈ d.bioList, ∀ bio, s.bioAt a = some bio → Apart b bio) →
    gather (tunnelNext (s.world d) l.call).1.mem b.places = gather s.mem b.places

/-- From what the call comes to, for the device among others (`v`, `r`) and for the server alone. -/
theorem acted {r : Ret} {k' : Client} {t' : Server}
    (hmine : tunnelNext (s.world d) l.call = (v, r)) (hok : r ≠ .oops)
    (hafter : k.after l (s.world d).loaded r = k') (hclient : t.client = t')
    (hnear : Nearby v t'.world)
    (hsame : t'.phase = k'.phase ∧ t'.store = k'.store ∧ t'.accepted = k.accepted ∧
      t'.done = k'.done)
    (hended : ∀ e ∈ t'.world.ended, e ∈ v.ended)
    (hfrees : ∀ a ∈ l.call.frees d.dataCurrentBio, a ∈ d.bioList)
    (hpages : ∀ b : Bio, (∀ a ∈ d.bioList, ∀ bio, s.bioAt a = some bio → Apart b bio) →
      gather v.mem b.places = gather s.mem b.places) : Acted s d k l t := by
  subst hclient
  refine ⟨?_, ?_, ?_, ?_, hfrees, ?_⟩
  · rw [hmine]
    exact hok
  · rw [hmine]
    exact hnear
  · rw [hmine, hafter]
    exact hsame
  · rw [hmine]
    exact hended
  · rw [hmine]
    exact hpages

theorem read_header_next (w : World) (f : FileId) (signal : Bool) :
    tunnelNext w (bdtunReadRequest f signal).call = w.readHeader signal := by
  show bdtunchRead w bdtunTxreqHeaderSize bdtunTxreqHeaderSize signal = _
  rw [bdtunchRead, if_pos rfl]

/-- The client reads a header, or sleeps. -/
theorem Hosted.client_idle (hs : Hosted s d k t fin rest) (hp : k.phase = .idle) :
    Acted s d k (bdtunReadRequest 0 false) t := by
  have hphase : t.phase = .idle := hs.phase.trans hp
  have hnone : Call.frees d.dataCurrentBio (bdtunReadRequest 0 false).call = none := rfl
  rcases read_request_next hs.serving.wf 0 false with ⟨hnil, hnext⟩ | ⟨a, more, entry, hl, he, hnext⟩
  · have hmine : tunnelNext (s.world d) (bdtunReadRequest 0 false).call = (s.world d, .sleep) := by
      rw [read_header_next, World.readHeader, ← hs.near.incoming, hnil]
      rfl
    have hafter : k.after (bdtunReadRequest 0 false) (s.world d).loaded .sleep = k := by
      simp only [Client.after, hp]
    have hclient : t.client = { t with phase := .idle } := by
      unfold Server.client
      rw [hphase, hnext]
      rfl
    exact acted hmine (by simp) hafter hclient hs.near ⟨hp.symm, hs.store, hs.accepted, hs.done⟩
      hs.ended (by simp [hnone]) fun _ _ => rfl
  · have hincoming : (s.world d).dev.incomingBioList = a :: more := hs.near.incoming.symm.trans hl
    have hmem : a ∈ (s.world d).dev.incomingBioList ++ (s.world d).dev.pendingBioList := by
      rw [hincoming]
      exact List.mem_append_left _ List.mem_cons_self
    have hbio := hs.near.bios a hmem
    rw [bioAt_of_entry he] at hbio
    obtain ⟨entry', he', hsame⟩ := Option.map_eq_some_iff.mp hbio.symm
    have hheader : header a entry' = header a entry := by rw [header, header, hsame]
    have hmine : tunnelNext (s.world d) (bdtunReadRequest 0 false).call =
        ((s.world d).deliver a more entry',
          .ret bdtunTxreqHeaderSize (.header (header a entry))) := by
      simp only [read_header_next, World.readHeader, hincoming, he', hheader]
    have hafter : k.after (bdtunReadRequest 0 false) (s.world d).loaded
        (.ret bdtunTxreqHeaderSize (.header (header a entry))) =
        { k with phase := .haveRequest (header a entry) } := by
      simp only [Client.after, hp]
    have hclient : t.client =
        { t with world := t.world.deliver a more entry, phase := .haveRequest (header a entry) } := by
      unfold Server.client
      rw [hphase, hnext]
    have hperm : ∀ b ∈ more ++ ((s.world d).dev.pendingBioList ++ [a]),
        b ∈ (s.world d).dev.incomingBioList ++ (s.world d).dev.pendingBioList := by
      intro b hb
      rw [hincoming]
      simp only [List.mem_append, List.mem_cons, List.not_mem_nil] at hb ⊢
      tauto
    refine acted hmine (by simp) hafter hclient ?_ ⟨rfl, hs.store, hs.accepted, hs.done⟩ hs.ended
      (by simp [hnone]) fun _ _ => rfl
    refine ⟨rfl, ?_, hs.near.cursor, fun b hb => hs.near.bios b (hperm b hb),
      fun b hb => hs.near.bytes b (hperm b hb)⟩
    show t.world.dev.pendingBioList ++ [a] = (s.world d).dev.pendingBioList ++ [a]
    rw [hs.near.pending]

/-- The client sets the request. -/
theorem Hosted.client_set (hs : Hosted s d k t fin rest) (hp : k.phase = .haveRequest req) :
    Acted s d k (bdtunSetRequest 0 req) t := by
  have hphase : t.phase = .haveRequest req := hs.phase.trans hp
  have hset : ∀ w : World, tunnelNext w (bdtunSetRequest 0 req).call =
      (w.setCurrent (wordOf (wordBytes sizeofLong req.id)), .ret sizeofLong .nothing) := fun w => by
    show bdtunchWrite w (wordBytes sizeofLong req.id) sizeofLong = _
    rw [bdtunchWrite_set w _ _ (length_wordBytes _ _), length_wordBytes]
  have hsuccess : (bdtunSetRequest 0 req).result (.ret sizeofLong .nothing) = some 0 :=
    result_ok _ _
  have hafter : k.after (bdtunSetRequest 0 req) (s.world d).loaded (.ret sizeofLong .nothing) =
      { k with phase := .requestSet req } := by
    simp only [Client.after, hp, hsuccess, if_true]
  have hclient : t.client =
      { t with
        world := t.world.setCurrent (wordOf (wordBytes sizeofLong req.id))
        phase := .requestSet req } := by
    unfold Server.client
    rw [hphase]
    exact call_ok (hset t.world) _
  have hfrees : Call.frees d.dataCurrentBio (bdtunSetRequest 0 req).call = none := by
    refine frees_none (fun f byte valid heq => ?_) _
    have hbuf : wordBytes sizeofLong req.id = [byte] := by
      injection heq
    have hlen := congrArg List.length hbuf
    rw [length_wordBytes] at hlen
    exact sizeofLong_ne_one hlen
  exact acted (hset _) (by simp) hafter hclient
    ⟨hs.near.incoming, hs.near.pending, rfl, hs.near.bios, hs.near.bytes⟩
    ⟨rfl, hs.store, hs.accepted, hs.done⟩ hs.ended (by simp [hfrees]) fun _ _ => rfl

/-- The request in hand: its entry with the device among others and alone, and its bio. -/
structure Hosted.Holds (s : Driver) (d : Device) (t : Server) (rest : List Loaded) (req : Txreq)
    (p : Loaded) (entry entry' : BioListEntry) : Prop where
  alone : Current t.world req entry
  among : Current (s.world d) req entry'
  bio : entry.bio = p.1 ∧ entry'.bio = p.1
  pending : d.pendingBioList = [req.id]
  first : ∃ more, rest = p :: more
  data : SectorBio p.1
  others : ∀ a ∈ d.bioList, ∀ bio, s.bioAt a = some bio → a = req.id ∧ bio = p.1 ∨ Apart bio p.1

theorem Hosted.holds (hs : Hosted s d k t fin rest) (hhand : InHand t.world rest req)
    (hcur : t.world.dev.dataCurrentBio = req.id) :
    ∃ p entry entry', Hosted.Holds s d t rest req p entry entry' := by
  obtain ⟨entry, p, more, hpend, he, hreq, hrest, hbio⟩ := hhand
  have hcurrent : Current t.world req entry := ⟨hcur, he, hreq⟩
  have hpending : d.pendingBioList = [req.id] := hs.near.pending.symm.trans hpend
  obtain ⟨entry', hcurrent', hsame⟩ := hs.near.current hcurrent hpending
  have hfirst : p ∈ rest := by rw [hrest]; exact List.mem_cons_self
  refine ⟨p, entry, entry', hcurrent, hcurrent', ⟨hbio, hsame.trans hbio⟩, hpending, ⟨more, hrest⟩,
    (hs.serving.good p hfirst).1, fun a ha bio hat => ?_⟩
  have hqueue := hs.serving.queue
  rw [hpend, hrest, List.singleton_append, List.map_cons, List.map_cons] at hqueue
  rcases List.mem_append.mp ha with hin | hin
  · right
    have hin' : a ∈ t.world.dev.incomingBioList := by
      rw [hs.near.incoming]
      exact hin
    have hmore : t.world.bioAt a ∈ more.map fun q => some q.1 := by
      rw [← (List.cons.inj hqueue).2]
      exact List.mem_map_of_mem hin'
    have hworld : t.world.bioAt a = some bio := (hs.near.bios a ha).trans hat
    obtain ⟨q, hq, hqbio⟩ := List.mem_map.mp hmore
    rw [hworld] at hqbio
    obtain rfl := Option.some.inj hqbio
    have hapart := hs.serving.apart
    rw [hrest, List.pairwise_cons] at hapart
    exact (hapart.1 q hq).symm
  · left
    rw [hpending, List.mem_singleton] at hin
    subst hin
    refine ⟨rfl, ?_⟩
    have hat' : s.bioAt req.id = some entry'.bio := bioAt_of_entry hcurrent'.live
    rw [hat'] at hat
    exact (Option.some.inj hat).symm.trans (hsame.trans hbio)

theorem Hosted.Holds.large {p : Loaded} {entry entry' : BioListEntry}
    (hh : Hosted.Holds s d t rest req p entry entry') : 512 ≤ p.1.biSize :=
  size_ge sectors_ok hh.data

/-- The request says which way its bio goes. -/
theorem Hosted.Holds.flag {p : Loaded} {entry entry' : BioListEntry}
    (hh : Hosted.Holds s d t rest req p entry entry') :
    req.flags &&& bdtunReq .reqWrite ≠ 0 ↔ bioDataDir p.1 = dirWrite := by
  rw [hh.alone.made, header_write_flag, hh.bio.1]

/-- The client fetches what the segments hold. -/
theorem Hosted.client_get (hbits : bitsPerLong = 64) (hs : Hosted s d k t fin rest)
    (hp : k.phase = .requestSet req) {p : Loaded} {entry entry' : BioListEntry}
    (hh : Hosted.Holds s d t rest req p entry entry') (hdir : bioDataDir p.1 = dirWrite) :
    Acted s d k (bdtunGetRequestData 0 req req.size false) t := by
  have hphase : t.phase = .requestSet req := hs.phase.trans hp
  have hlarge := hh.large
  have halone := get_data_next hbits hh.alone (by rw [hh.bio.1]; exact hlarge)
    (by rw [hh.bio.1]; exact hh.data.total) (by rw [hh.bio.1]; exact hdir)
  have hmine := get_data_next hbits hh.among (by rw [hh.bio.2]; exact hlarge)
    (by rw [hh.bio.2]; exact hh.data.total) (by rw [hh.bio.2]; exact hdir)
  have hmem : req.id ∈ d.bioList := by
    rw [Device.bioList, hh.pending]
    exact List.mem_append_right _ List.mem_cons_self
  have hbytes := hs.near.bytes req.id hmem p.1 (by
    rw [bioAt_of_entry hh.among.live, hh.bio.2])
  rw [hh.bio.1, hbytes] at halone
  rw [hh.bio.2] at hmine
  have hclient : t.client =
      { t with
        phase := .transferred req
        store := writeAt t.store req.offset (gather s.mem p.1.places) } := by
    unfold Server.client
    rw [hphase]
    simp only [if_pos (hh.flag.mpr hdir), halone, call_ok halone]
    rfl
  have hsuccess : (bdtunGetRequestData 0 req req.size false).result
      (.ret req.size (.data (gather s.mem p.1.places))) = some 0 := result_ok _ _
  have hafter : k.after (bdtunGetRequestData 0 req req.size false) (s.world d).loaded
      (.ret req.size (.data (gather s.mem p.1.places))) =
      { k with
        store := writeAt k.store req.offset (gather s.mem p.1.places)
        phase := .transferred req } := by
    simp only [Client.after, hp, hsuccess, if_true]
  refine acted hmine (by simp) hafter hclient hs.near ⟨rfl, ?_, hs.accepted, hs.done⟩ hs.ended
    (fun a ha => by cases ha) fun _ _ => rfl
  show writeAt t.store _ _ = _
  rw [hs.store]

/-- The client sends what its store has. -/
theorem Hosted.client_send (hbits : bitsPerLong = 64) (hs : Hosted s d k t fin rest)
    (hp : k.phase = .requestSet req) {p : Loaded} {entry entry' : BioListEntry}
    (hh : Hosted.Holds s d t rest req p entry entry') (hdir : ¬ bioDataDir p.1 = dirWrite) :
    Acted s d k (bdtunSendRequestData 0 req (readAt k.store req.offset req.size) req.size) t := by
  have hphase : t.phase = .requestSet req := hs.phase.trans hp
  have hread : bioDataDir p.1 = dirRead := (bioDataDir_eq_read _).mpr hdir
  have hlarge := hh.large
  have hlen := length_readAt k.store req.offset req.size
  have halone := send_data_next hbits hh.alone (by rw [hh.bio.1]; exact hlarge)
    (by rw [hh.bio.1]; exact hh.data.total) (by rw [hh.bio.1]; exact hread) hlen
  have hmine := send_data_next hbits hh.among (by rw [hh.bio.2]; exact hlarge)
    (by rw [hh.bio.2]; exact hh.data.total) (by rw [hh.bio.2]; exact hread) hlen
  rw [hh.bio.1] at halone
  rw [hh.bio.2] at hmine
  have hsize : req.size = p.1.biSize := by rw [hh.alone.size, hh.bio.1]
  have hplaces : (readAt k.store req.offset req.size).length = p.1.places.length := by
    rw [hlen, length_places, hh.data.total, hsize]
  have hclient : t.client =
      { t with
        world := { t.world with
          mem := scatter t.world.mem p.1.places (readAt k.store req.offset req.size) }
        phase := .transferred req } := by
    unfold Server.client
    rw [hphase, hs.store]
    simp only [if_neg (mt hh.flag.mp hdir)]
    rw [call_ok halone, hs.store]
  have hsuccess : (bdtunSendRequestData 0 req (readAt k.store req.offset req.size) req.size).result
      (.ret req.size .nothing) = some 0 := result_ok _ _
  have hafter : k.after (bdtunSendRequestData 0 req (readAt k.store req.offset req.size) req.size)
      (s.world d).loaded (.ret req.size .nothing) = { k with phase := .transferred req } := by
    simp only [Client.after, hp, hsuccess, if_true]
  have hfrees : Call.frees d.dataCurrentBio
      (bdtunSendRequestData 0 req (readAt k.store req.offset req.size) req.size).call = none := by
    refine frees_none (fun f byte valid heq => ?_) _
    have hbuf : (readAt k.store req.offset req.size).take req.size = [byte] := by
      injection heq
    have hone := congrArg List.length hbuf
    rw [List.length_take, hlen, hsize, List.length_singleton] at hone
    omega
  refine acted hmine (by simp) hafter hclient ?_ ⟨rfl, hs.store, hs.accepted, hs.done⟩ hs.ended
    (by simp [hfrees]) fun b hb => ?_
  · refine ⟨hs.near.incoming, hs.near.pending, hs.near.cursor, hs.near.bios,
      fun a ha bio hbio => ?_⟩
    rcases hh.others a ha bio hbio with ⟨-, rfl⟩ | hapart
    · have hgot : ∀ mem : Mem, gather (scatter mem p.1.places (readAt k.store req.offset req.size))
          p.1.places = readAt k.store req.offset req.size := fun mem =>
        gather_scatter _ _ _ hh.data.nodup hplaces
      exact (hgot _).trans (hgot _).symm
    · exact (apart_gather hapart _ _).trans
        ((hs.near.bytes a ha bio hbio).trans (apart_gather hapart _ _).symm)
  · have hmem : req.id ∈ d.bioList := by
      rw [Device.bioList, hh.pending]
      exact List.mem_append_right _ List.mem_cons_self
    have hat : s.bioAt req.id = some p.1 := by
      rw [← hh.bio.2]
      exact bioAt_of_entry hh.among.live
    exact apart_gather (hb req.id hmem p.1 hat) _ _

/-- The client completes the request. -/
theorem Hosted.client_complete (hs : Hosted s d k t fin rest) (hp : k.phase = .transferred req)
    {p : Loaded} {entry entry' : BioListEntry} (hh : Hosted.Holds s d t rest req p entry entry') :
    Acted s d k (bdtunCompleteRequest 0) t := by
  have hphase : t.phase = .transferred req := hs.phase.trans hp
  have halone := complete_next hh.alone
  have hmine := complete_next hh.among
  have hmem : req.id ∈ d.bioList := by
    rw [Device.bioList, hh.pending]
    exact List.mem_append_right _ List.mem_cons_self
  have hat : s.bioAt req.id = some p.1 := by
    rw [← hh.bio.2]
    exact bioAt_of_entry hh.among.live
  have hbytes := hs.near.bytes req.id hmem p.1 hat
  have hloaded : t.world.loaded = (s.world d).loaded := by
    rw [World.loaded, World.loaded, hh.alone.cur, hh.among.cur, bioAt_of_entry hh.alone.live,
      bioAt_of_entry hh.among.live, hh.bio.1, hh.bio.2]
    show [(p.1, gather t.world.mem p.1.places)] = [(p.1, gather (s.world d).mem p.1.places)]
    rw [hbytes]
  have hclient : t.client =
      { t with
        world := t.world.finish req.id entry 0
        phase := .idle
        done := t.done ++ (s.world d).loaded
        kept := t.kept ++ (s.world d).loaded } := by
    unfold Server.client
    rw [hphase]
    simp only [call_ok halone, hloaded]
  have hsuccess : (bdtunCompleteRequest 0).result (.ret 1 .nothing) = some 0 := result_ok _ _
  have hafter : k.after (bdtunCompleteRequest 0) (s.world d).loaded (.ret 1 .nothing) =
      { k with phase := .idle, done := k.done ++ (s.world d).loaded } := by
    simp only [Client.after, hp, hsuccess, if_true]
  have hnodup := hs.serving.wf.nodup
  rw [hs.near.incoming, hs.near.pending] at hnodup
  have hother : ∀ (w : World) (e : BioListEntry) (b : Addr), b ≠ req.id →
      (w.finish req.id e 0).bioAt b = w.bioAt b := by
    intro w e b hne
    simp [World.bioAt, World.finish, hne]
  refine acted hmine (by simp) hafter hclient ?_ ⟨rfl, hs.store, hs.accepted, ?_⟩ ?_ ?_
    fun _ _ => rfl
  · refine ⟨?_, ?_, hs.near.cursor, fun b hb => ?_, fun b hb bio hbio => ?_⟩
    · show t.world.dev.incomingBioList.erase req.id = (s.world d).dev.incomingBioList.erase req.id
      rw [hs.near.incoming]
    · show t.world.dev.pendingBioList.erase req.id = (s.world d).dev.pendingBioList.erase req.id
      rw [hs.near.pending]
    · obtain ⟨hold, hne⟩ := mem_erased hnodup hb
      exact (hother _ _ b hne).trans ((hs.near.bios b hold).trans (hother _ _ b hne).symm)
    · obtain ⟨hold, hne⟩ := mem_erased hnodup hb
      rw [hother _ _ b hne] at hbio
      exact hs.near.bytes b hold bio hbio
  · show t.done ++ _ = _
    rw [hs.done]
  · intro e he
    have he' : e ∈ t.world.ended ++ [(entry.bio, 0)] := he
    show e ∈ s.ended ++ [(entry'.bio, 0)]
    rw [hh.bio.2, ← hh.bio.1]
    rcases List.mem_append.mp he' with hold | hnew
    · exact List.mem_append_left _ (hs.ended e hold)
    · exact List.mem_append_right _ hnew
  · intro a ha
    have hcursor : a = d.dataCurrentBio := by
      rw [completion_call] at ha
      exact (Option.some.inj ha).symm
    rw [hcursor, show d.dataCurrentBio = req.id from hh.among.cur]
    exact hmem

/-- **What a client does** to its device. -/
theorem Hosted.act (hbits : bitsPerLong = 64) (hs : Hosted s d k t fin rest)
    (hl : k.call = some l) : Acted s d k l t := by
  have hstands := hs.serving.stands
  unfold Stands at hstands
  rw [hs.phase] at hstands
  cases hp : k.phase with
  | idle =>
    rw [Client.call, hp] at hl
    obtain rfl := Option.some.inj hl
    exact hs.client_idle hp
  | haveRequest req =>
    rw [Client.call, hp] at hl
    obtain rfl := Option.some.inj hl
    exact hs.client_set hp
  | requestSet req =>
    rw [hp] at hstands
    obtain ⟨p, entry, entry', hh⟩ := hs.holds hstands.1 hstands.2.1
    rw [Client.call, hp] at hl
    by_cases hdir : bioDataDir p.1 = dirWrite
    · simp only [if_pos (hh.flag.mpr hdir), Option.some.injEq] at hl
      subst hl
      exact hs.client_get hbits hp hh hdir
    · simp only [if_neg (mt hh.flag.mp hdir), Option.some.injEq] at hl
      subst hl
      exact hs.client_send hbits hp hh hdir
  | transferred req =>
    rw [hp] at hstands
    obtain ⟨p, entry, entry', hh⟩ := hs.holds hstands.1 hstands.2.1
    rw [Client.call, hp] at hl
    obtain rfl := Option.some.inj hl
    exact hs.client_complete hp hh
  | failed =>
    rw [hp] at hstands
    exact hstands.elim

theorem after_base (k : Client) (l : LibCall) (loaded : List Loaded) (r : Ret) :
    (k.after l loaded r).base = k.base := by
  unfold Client.after
  split
  · split <;> rfl
  · rfl
  · rfl
  · rfl
  · rfl

theorem after_accepted (k : Client) (l : LibCall) (loaded : List Loaded) (r : Ret) :
    (k.after l loaded r).accepted = k.accepted := by
  unfold Client.after
  split
  · split <;> rfl
  · rfl
  · rfl
  · rfl
  · rfl

/-- The client and its device after the call. -/
theorem Hosted.client (hbits : bitsPerLong = 64) (hs : Hosted s d k t fin rest)
    (hl : k.call = some l) (hworld : s'.world d' = (tunnelNext (s.world d) l.call).1) :
    ∃ fin' rest', Hosted s' d'
      (k.after l (s.world d).loaded (tunnelNext (s.world d) l.call).2) t.client fin' rest' := by
  have ha := hs.act hbits hl
  obtain ⟨fin', rest', hserving⟩ := hs.serving.next hbits sectors_ok (by decide) .client trivial
  obtain ⟨hphase, hstore, haccepted, hdone⟩ := ha.client
  refine ⟨fin', rest', ?_, hphase, hstore, ?_, hdone, ?_, ?_⟩
  · rw [after_base]
    exact hserving
  · rw [after_accepted, haccepted]
  · rw [hworld]
    exact ha.near
  · intro e he
    have hended : s'.ended = (tunnelNext (s.world d) l.call).1.ended := congrArg World.ended hworld
    rw [hended]
    exact ha.ended e he

/-- The calls of clients are on tunnel file 0, and free the data-current entry or none. -/
theorem client_call (hl : k.call = some l) :
    l.call.onFile = true ∧ (∀ v, KmallocOk v l.call) ∧ (∀ bio new, l.call ≠ .submit bio new) ∧
      ∀ (handles : List (DiskName × Handle)) (submitted : List Bio) (name : DiskName),
        (name, (Node.tunnel, 0)) ∈ handles → mayCall handles submitted name l.call := by
  unfold Client.call at hl
  split at hl
  · obtain rfl := Option.some.inj hl
    exact ⟨rfl, fun _ => trivial, by simp [bdtunReadRequest], fun _ _ _ h => h⟩
  · obtain rfl := Option.some.inj hl
    exact ⟨rfl, fun _ => trivial, by simp [bdtunSetRequest], fun _ _ _ h => h⟩
  · split at hl
    · obtain rfl := Option.some.inj hl
      exact ⟨rfl, fun _ => trivial, by simp [bdtunGetRequestData], fun _ _ _ h => h⟩
    · obtain rfl := Option.some.inj hl
      exact ⟨rfl, fun _ => trivial, by simp [bdtunSendRequestData], fun _ _ _ h => h⟩
  · obtain rfl := Option.some.inj hl
    rw [completion_call]
    exact ⟨rfl, fun _ => trivial, by simp, fun _ _ _ h => h⟩
  · cases hl

/-! ## What a submitter does -/

/-- A submission, with the bio's segments filled by now and in the same call. -/
theorem Nearby.submit (hn : Nearby (s.world d) t.world) {bio : Bio} {data : List UInt8}
    {new : Option Addr} (hbio : SectorBio bio)
    (hlen : data.length = bio.biSize)
    (hapart : ∀ a ∈ d.bioList, ∀ other, s.bioAt a = some other → Apart bio other)
    (hfilled : gather s.mem bio.places = data) :
    Nearby (tunnelNext (s.world d) (.submit bio new)).1 (t.next (.submit bio data new)).world := by
  have hbytes : ∀ a ∈ d.bioList, ∀ other, s.bioAt a = some other →
      gather (scatter t.world.mem bio.places data) other.places = gather s.mem other.places :=
    fun a ha other hat => (apart_gather (hapart a ha other hat).symm _ _).trans
      (hn.bytes a ha other hat)
  cases new with
  | none => exact ⟨hn.incoming, hn.pending, hn.cursor, hn.bios, hbytes⟩
  | some new =>
    have hsplit : ∀ a ∈ d.incomingBioList ++ [new] ++ d.pendingBioList,
        a = new ∨ a ≠ new ∧ a ∈ d.bioList := by
      intro a ha
      by_cases hnew : a = new
      · exact .inl hnew
      · refine .inr ⟨hnew, ?_⟩
        simp only [List.mem_append, List.mem_singleton, hnew, or_false] at ha
        exact List.mem_append.mpr ha
    have hat : ∀ w : World, (tunnelNext w (.submit bio (some new))).1.bioAt new = some bio :=
      fun w => by simp [tunnelNext, bdtunMakeRequest, World.bioAt]
    have hother : ∀ (w : World) (a : Addr), a ≠ new →
        (tunnelNext w (.submit bio (some new))).1.bioAt a = w.bioAt a :=
      fun w a hne => by simp [tunnelNext, bdtunMakeRequest, World.bioAt, hne]
    refine ⟨?_, hn.pending, hn.cursor, fun a ha => ?_, fun a ha other hbioAt => ?_⟩
    · show t.world.dev.incomingBioList ++ [new] = (s.world d).dev.incomingBioList ++ [new]
      rw [hn.incoming]
    · rcases hsplit a ha with rfl | ⟨hne, hmem⟩
      · exact (hat _).trans (hat _).symm
      · exact (hother _ a hne).trans ((hn.bios a hmem).trans (hother _ a hne).symm)
    · rcases hsplit a ha with rfl | ⟨hne, hmem⟩
      · rw [hat] at hbioAt
        obtain rfl := Option.some.inj hbioAt
        have hplaces : data.length = bio.places.length := by
          rw [length_places, hbio.total, hlen]
        exact (gather_scatter _ _ _ hbio.nodup hplaces).trans hfilled.symm
      · rw [hother _ a hne] at hbioAt
        exact hbytes a hmem other hbioAt

/-- What a submitter does to its device, with the bio's segments filled. -/
theorem Hosted.submit (hs : Hosted s d k t fin rest) {bio : Bio} {data : List UInt8}
    {new : Option Addr} (hk : KmallocOk (s.world d) (.submit bio new)) (hbio : SectorBio bio)
    (hlen : data.length = bio.biSize)
    (hapart : ∀ a ∈ d.bioList, ∀ other, s.bioAt a = some other → Apart bio other)
    (hfilled : gather s.mem bio.places = data) (hlive : ∀ a ∈ d.bioList, (s.entries a).isSome)
    (hworld : s'.world d' = (tunnelNext (s.world d) (.submit bio new)).1) :
    ∃ fin' rest', Hosted s' d'
      { k with accepted := k.accepted ++ new.toList.map fun _ => (bio, data) }
      (t.next (.submit bio data new)) fin' rest' := by
  have henabled : t.Enabled kernelSectorSize (2 ^ 64 - kernelSectorSize)
      (.submit bio data new) := by
    refine ⟨?_, hbio, hlen, fun other ho => ?_⟩
    · cases new with
      | none => trivial
      | some new =>
        refine ⟨?_, hk.2⟩
        by_contra hsome
        have hmem := (hs.serving.wf.live new).mp (Option.isSome_iff_ne_none.mpr hsome)
        rw [hs.near.incoming, hs.near.pending] at hmem
        have halive := hlive new hmem
        have hdead : s.entries new = none := hk.1
        rw [hdead] at halive
        cases halive
    · obtain ⟨a, ha, hat⟩ := hs.alone ho
      exact hapart a ha other hat
  obtain ⟨more, hserving⟩ := hs.serving.submit henabled
  refine ⟨fin, rest ++ more, hserving, hs.phase, hs.store, ?_, hs.done, ?_, ?_⟩
  · show t.accepted ++ _ = _
    rw [hs.accepted]
  · rw [hworld]
    exact hs.near.submit hbio hlen hapart hfilled
  · have hended : s'.ended = (tunnelNext (s.world d) (.submit bio new)).1.ended :=
      congrArg World.ended hworld
    rw [hended]
    cases new with
    | none =>
      intro e he
      rcases List.mem_append.mp he with hold | hnew
      · exact List.mem_append_left _ (hs.ended e hold)
      · exact List.mem_append_right _ hnew
    | some new => exact hs.ended

end

end BDTun
