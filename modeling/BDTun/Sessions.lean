import BDTun.Conservation
import BDTun.Library

/-!
# Several tunnel files at a time

Files of one device are used by clients of their own; each sets and completes a
request in one go, and only requests delivered on its file.  `Sess` remembers for
each file what was delivered on it (`mine`) and what no client has completed
since (`windows`).

The pending list belongs to the device, so a close of any file gives back what
was delivered on every file.  `exclusive_delivery`: that is all there is to it.
While no file is closed over the requests of another (`soleCloser`), each
request stays with its file; and a close over another's request takes it away.
-/

namespace BDTun

open Memory Machine

section
variable [Kernel]

inductive Session
  | submit (bio : Bio) (new : Option Addr)
  | chOpen (f : FileId)
  | chRelease (f : FileId)
  | headerRead (f : FileId) (signal : Bool)
  /-- set-current and completion byte -/
  | finish (f : FileId) (id : Addr) (byte : UInt8)
deriving DecidableEq

/-- The set-current write of an id. -/
def setCall (f : FileId) (id : Addr) : Call := .write f (wordBytes sizeofLong id) sizeofLong

def sessionNext (s : World) : Session → World × Ret
  | .submit bio new => tunnelNext s (.submit bio new)
  | .chOpen f => tunnelNext s (.chOpen f)
  | .chRelease f => tunnelNext s (.chRelease f)
  | .headerRead f signal => tunnelNext s (bdtunReadRequest f signal).call
  | .finish f id byte => tunnelNext (tunnelNext s (setCall f id)).1 (.write f [byte] 1)

def SessionOk (s : World) : Session → Prop
  | .submit bio new => KmallocOk s (.submit bio new)
  | _ => True

instance (s : World) (c : Session) : Decidable (SessionOk s c) := by
  cases c <;> unfold SessionOk <;> infer_instance

def sessions : Machine World Session Ret where
  enabled s c := SessionOk s c ∧ (sessionNext s c).2 ≠ .oops
  next := sessionNext

instance (s : World) (c : Session) : Decidable (sessions.enabled s c) :=
  inferInstanceAs (Decidable (_ ∧ _))

/-! ## What the clients know, and what they hold -/

structure Sess where
  files : List FileId
  submitted : List Bio
  /-- file and id: delivered there, not completed there, the file not closed -/
  mine : List (FileId × Addr)
  /-- file and id: delivered there, not completed anywhere, the file not closed -/
  windows : List (FileId × Addr)

def Sess.record (se : Sess) : Session × Ret → Sess
  | (.submit bio _, _) => { se with submitted := se.submitted ++ [bio] }
  | (.chOpen f, .ret code _) => if code = 0 then { se with files := f :: se.files } else se
  | (.chRelease f, _) =>
    { se with
      files := se.files.erase f
      mine := se.mine.filter fun p => p.1 ≠ f
      windows := se.windows.filter fun p => p.1 ≠ f }
  | (.headerRead f _, .ret _ (.header req)) =>
    { se with mine := se.mine ++ [(f, req.id)], windows := se.windows ++ [(f, req.id)] }
  | (.finish f id _, _) =>
    { se with
      mine := se.mine.filter fun p => p ≠ (f, id)
      windows := se.windows.filter fun p => p.2 ≠ id }
  | _ => se

def sess (tr : List (Session × Ret)) : Sess := tr.foldl Sess.record ⟨[], [], [], []⟩

@[simp] theorem sess_snoc (tr : List (Session × Ret)) (e : Session × Ret) :
    sess (tr ++ [e]) = (sess tr).record e := by
  simp [sess]

/-- Each client completes what was delivered on its file, once. -/
def honest : Policy Session Ret := fun tr c =>
  match c with
  | .submit bio _ => bio ∉ (sess tr).submitted
  | .chOpen f => f ∉ (sess tr).files
  | .chRelease f => f ∈ (sess tr).files
  | .headerRead f _ => f ∈ (sess tr).files
  | .finish f id _ => f ∈ (sess tr).files ∧ (f, id) ∈ (sess tr).mine

/-- And no file is closed while another has requests to complete. -/
def soleCloser : Policy Session Ret := fun tr c =>
  honest tr c ∧
  match c with
  | .chRelease f => ∀ p ∈ (sess tr).mine, p.1 = f
  | _ => True

instance (tr : List (Session × Ret)) (c : Session) : Decidable (honest tr c) := by
  cases c <;> unfold honest <;> infer_instance

instance (tr : List (Session × Ret)) (c : Session) : Decidable (soleCloser tr c) := by
  cases c <;> unfold soleCloser <;> infer_instance

/-- A request delivered on a file stays with that file until it is completed or the file is closed;
no request is with two files, and no bio is ended twice. -/
def ExclusiveDelivery (blockSize size : Nat) (mem : Mem) : Prop :=
  ∀ tr s, Run sessions honest (World.init blockSize size mem) tr s →
    (∀ p ∈ (sess tr).windows, p.2 ∉ s.dev.incomingBioList) ∧
    ((sess tr).windows.map Prod.snd).Nodup ∧ s.endedBios.Nodup

/-! ## Sessions as calls -/

/-- What the clients have is what the device owes, each request with one file. -/
structure Served (se : Sess) (hi : Hist) : Prop where
  submitted : hi.submitted = se.submitted
  mine : ∀ p ∈ se.mine, p.2 ∈ hi.owed
  nodup : (se.mine.map Prod.snd).Nodup
  windows : se.windows.Sublist se.mine

variable {tr : List (Session × Ret)} {calls : List (Call × Ret)} {s : World}

/-- The set-current write of an owed id. -/
theorem setCall_next (htracks : Tracks (hist calls) s) (f : FileId) {id : Addr}
    (hid : id ∈ (hist calls).owed) :
    ∃ entry, s.entries id = some entry ∧
      tunnelNext s (setCall f id) = (s.setCurrent id, .ret sizeofLong .nothing) ∧
      (hist calls).record (setCall f id, .ret sizeofLong .nothing) =
        { hist calls with lastSet := id } := by
  obtain ⟨entry, he⟩ := htracks.wf.entry_of_pending
    (show id ∈ s.dev.pendingBioList by rwa [htracks.owed])
  obtain ⟨hfits, hnext⟩ := set_request_next htracks.wf f ⟨id, 0, 0, 0⟩ he
  refine ⟨entry, he, hnext, ?_⟩
  simp only [setCall, Hist.record, length_wordBytes, if_true, hfits]

/-- The completion byte that follows it. -/
theorem byte_next {entry : BioListEntry} {id : Addr} (he : s.entries id = some entry) (f : FileId)
    (byte : UInt8) :
    tunnelNext (s.setCurrent id) (.write f [byte] 1) =
      ((s.setCurrent id).finish id entry (if byte ≠ 0 then -eio else 0), .ret 1 .nothing) := by
  have hent : (s.setCurrent id).entries id = some entry := he
  show bdtunchWrite (s.setCurrent id) [byte] 1 = _
  rw [bdtunchWrite_byte]
  simp only [World.setCurrent_dev_dataCurrentBio, World.complete, hent]

variable {blockSize size : Nat} {mem : Mem}

/-- A client that completes an owed request makes two calls, and then it is not owed. -/
theorem finish_run (hrun : Run tunnel heldClient (World.init blockSize size mem) calls s)
    (f : FileId) (byte : UInt8) {id : Addr} (hid : id ∈ (hist calls).owed) :
    (sessionNext s (.finish f id byte)).2 = .ret 1 .nothing ∧
    ∃ more, Run tunnel heldClient (World.init blockSize size mem) (calls ++ more)
        (sessionNext s (.finish f id byte)).1 ∧
      hist (calls ++ more) = { hist calls with lastSet := id, owed := (hist calls).owed.erase id } := by
  obtain ⟨entry, he, hset, hrec⟩ := setCall_next (run_tracks hrun) f hid
  have hbyte := byte_next he f byte
  have hnext : sessionNext s (.finish f id byte) =
      tunnelNext (s.setCurrent id) (.write f [byte] 1) := by
    show tunnelNext (tunnelNext s (setCall f id)).1 (.write f [byte] 1) = _
    rw [hset]
  have hlen : (wordBytes sizeofLong id).length ≠ 1 := by
    rw [length_wordBytes]
    exact sizeofLong_ne_one
  -- the set-current write
  have hen : tunnel.enabled s (setCall f id) := by
    refine ⟨trivial, ?_⟩
    rw [hset]
    simp
  have hrun₁ := hrun.step (setCall f id) (fun hone => absurd hone hlen) hen
  rw [show tunnel.next s (setCall f id) = _ from hset] at hrun₁
  have hhist₁ : hist (calls ++ [(setCall f id, .ret sizeofLong .nothing)]) =
      { hist calls with lastSet := id } := by
    rw [hist_snoc, hrec]
  -- the byte
  have hen₁ : tunnel.enabled (s.setCurrent id) (.write f [byte] 1) := by
    refine ⟨trivial, ?_⟩
    rw [hbyte]
    simp
  have hheld : heldClient ([] ++ (calls ++ [(setCall f id, .ret sizeofLong .nothing)]))
      (.write f [byte] 1) := by
    intro _
    rw [List.nil_append, hhist₁]
    exact hid
  have hrun₂ := hrun₁.step (.write f [byte] 1) hheld hen₁
  rw [show tunnel.next (s.setCurrent id) (.write f [byte] 1) = _ from hbyte,
    List.append_assoc] at hrun₂
  rw [hnext, hbyte]
  refine ⟨rfl, _, hrun₂, ?_⟩
  rw [← List.append_assoc, hist_snoc, hhist₁]
  simp [Hist.record, sizeofLong_ne_one.symm]

/-! ### What a step does to who has what -/

theorem Served.deliver {se : Sess} {hi : Hist} (h : Served se hi) (f : FileId) {a : Addr}
    (ha : a ∉ se.mine.map Prod.snd) :
    Served { se with mine := se.mine ++ [(f, a)], windows := se.windows ++ [(f, a)] }
      { hi with owed := hi.owed ++ [a] } := by
  refine ⟨h.submitted, fun p hp => ?_, ?_, h.windows.append (List.Sublist.refl _)⟩
  · rw [List.mem_append]
    rcases List.mem_append.mp hp with hold | hone
    · exact Or.inl (h.mine p hold)
    · obtain rfl := List.mem_singleton.mp hone
      exact Or.inr (List.mem_singleton.mpr rfl)
  · show ((se.mine ++ [(f, a)]).map Prod.snd).Nodup
    rw [List.map_append, List.nodup_append']
    refine ⟨h.nodup, List.nodup_singleton _, ?_⟩
    intro b hb hone
    obtain rfl := List.mem_singleton.mp hone
    exact ha hb

theorem Served.close {se : Sess} {hi : Hist} (h : Served se hi) {f : FileId}
    (hsole : ∀ p ∈ se.mine, p.1 = f) (r : Ret) :
    Served (se.record (.chRelease f, r)) (hi.record (.chRelease f, r)) := by
  have hnone : se.mine.filter (fun p => p.1 ≠ f) = [] := by
    rw [List.filter_eq_nil_iff]
    intro p hp
    simp [hsole p hp]
  refine ⟨h.submitted, ?_, ?_, h.windows.filter _⟩
  · simp only [Sess.record, hnone]
    intro p hp
    cases hp
  · simp only [Sess.record, hnone]
    exact List.nodup_nil

theorem Served.finish {se : Sess} {hi : Hist} (h : Served se hi) {f : FileId} {id : Addr}
    (hmem : (f, id) ∈ se.mine) (byte : UInt8) (r : Ret) :
    Served (se.record (.finish f id byte, r))
      { hi with lastSet := id, owed := hi.owed.erase id } := by
  refine ⟨h.submitted, fun p hp => ?_, h.nodup.sublist ((List.filter_sublist).map _), ?_⟩
  · obtain ⟨hold, hne⟩ := List.mem_filter.mp hp
    have hpid : p.2 ≠ id := by
      intro heq
      have hpair := List.inj_on_of_nodup_map h.nodup hold hmem heq
      exact absurd hpair (by simpa using hne)
    exact (List.mem_erase_of_ne hpid).mpr (h.mine p hold)
  · have hsub : (se.windows.filter fun p => p.2 ≠ id).Sublist
        (se.mine.filter fun p => p.2 ≠ id) := h.windows.filter _
    refine hsub.trans (List.monotone_filter_right _ ?_)
    intro p hpid
    simp only [decide_eq_true_eq] at hpid ⊢
    intro heq
    exact hpid (by rw [heq])

/-- The first incoming entry is with nobody. -/
theorem Served.fresh {se : Sess} (h : Served se (hist calls)) (htracks : Tracks (hist calls) s)
    {a : Addr} (ha : a ∈ s.dev.incomingBioList) : a ∉ se.mine.map Prod.snd := by
  intro hmem
  obtain ⟨p, hp, rfl⟩ := List.mem_map.mp hmem
  have howed := h.mine p hp
  rw [← htracks.owed] at howed
  exact htracks.wf.not_incoming howed ha

/-- What the sessions of one device are as calls. -/
structure Joined (blockSize size : Nat) (mem : Mem) (tr : List (Session × Ret)) (s : World)
    (calls : List (Call × Ret)) : Prop where
  run : Run tunnel heldClient (World.init blockSize size mem) calls s
  served : Served (sess tr) (hist calls)

/-- A session step that is one call. -/
theorem Joined.call (h : Joined blockSize size mem tr s calls) {c : Session} (call : Call)
    (hnext : sessionNext s c = tunnelNext s call) (hp : heldClient calls call)
    (hk : KmallocOk s call) (hr : (sessionNext s c).2 ≠ .oops)
    (hserved : Served ((sess tr).record (c, (sessionNext s c).2))
      ((hist calls).record (call, (sessionNext s c).2))) :
    ∃ more, Joined blockSize size mem (tr ++ [(c, (sessionNext s c).2)]) (sessionNext s c).1
      (calls ++ more) := by
  rw [hnext] at hr hserved ⊢
  refine ⟨[(call, (tunnelNext s call).2)], h.run.step call hp ⟨hk, hr⟩, ?_⟩
  rw [hist_snoc, sess_snoc]
  exact hserved

theorem Joined.next (h : Joined blockSize size mem tr s calls) (c : Session)
    (hp : soleCloser tr c) (hk : SessionOk s c) (hr : (sessionNext s c).2 ≠ .oops) :
    ∃ more, Joined blockSize size mem (tr ++ [(c, (sessionNext s c).2)]) (sessionNext s c).1
      (calls ++ more) := by
  have htracks := run_tracks h.run
  have hserved := h.served
  cases c with
  | submit bio new =>
    refine h.call (.submit bio new) rfl ?_ hk hr ?_
    · rw [heldClient, hserved.submitted]
      exact hp.1
    · exact ⟨by simp [Hist.record, Sess.record, hserved.submitted], hserved.mine, hserved.nodup,
        hserved.windows⟩
  | chOpen f =>
    refine h.call (.chOpen f) rfl trivial trivial hr ?_
    simp only [sessionNext, tunnelNext, Hist.record, Sess.record]
    split <;> exact ⟨hserved.submitted, hserved.mine, hserved.nodup, hserved.windows⟩
  | chRelease f => exact h.call (.chRelease f) rfl trivial trivial hr (hserved.close hp.2 _)
  | headerRead f signal =>
    refine h.call (bdtunReadRequest f signal).call rfl trivial trivial hr ?_
    simp only [sessionNext]
    rcases read_request_next htracks.wf f signal with
      ⟨-, hnext⟩ | ⟨a, rest, entry, hl, he, hnext⟩
    · rw [hnext]
      cases signal <;> exact hserved
    · rw [hnext]
      have hmem : a ∈ s.dev.incomingBioList := by rw [hl]; exact List.mem_cons_self
      exact hserved.deliver f (hserved.fresh htracks hmem)
  | finish f id byte =>
    obtain ⟨hans, more, hrun, hhist⟩ := finish_run h.run f byte (hserved.mine _ hp.1.2)
    refine ⟨more, hrun, ?_⟩
    rw [hhist, sess_snoc]
    exact hserved.finish hp.1.2 byte _

theorem run_joined (h : Run sessions soleCloser (World.init blockSize size mem) tr s) :
    ∃ calls, Joined blockSize size mem tr s calls := by
  refine h.invariant (fun tr s => ∃ calls, Joined blockSize size mem tr s calls) ?_ ?_
  · exact ⟨[], .refl, rfl, by simp [sess], by simp [sess], List.Sublist.refl _⟩
  · rintro tr s c ⟨calls, hjoined⟩ hp he
    obtain ⟨more, hmore⟩ := hjoined.next c hp he.1 he.2
    exact ⟨_, hmore⟩

/-- No step of an honest client faults, as long as each request is with one file. -/
theorem Joined.no_fault (h : Joined blockSize size mem tr s calls) {c : Session}
    (hp : honest tr c) : (sessionNext s c).2 ≠ .oops := by
  have htracks := run_tracks h.run
  cases c with
  | submit bio new => exact next_of_no_target htracks.wf (c := .submit bio new) rfl
  | chOpen f => exact next_of_no_target htracks.wf (c := .chOpen f) rfl
  | chRelease f => exact next_of_no_target htracks.wf (c := .chRelease f) rfl
  | headerRead f signal =>
    exact next_of_no_target htracks.wf (c := (bdtunReadRequest f signal).call) (if_pos rfl)
  | finish f id byte =>
    rw [(finish_run h.run f byte (h.served.mine _ hp.2)).1]
    simp

/-- **Exclusive delivery.**  Let each client complete only what was delivered on its file, and let no
file be closed while another has requests to complete.  Then in every run a request delivered on a
file stays pending until it is completed or that file is closed: neither its entry nor its bio is on
the incoming list, so no header read returns it; no request is with two files, no bio is ended twice
and no call faults.  A close of one file over requests of another puts them back on the list. -/
theorem exclusive_delivery
    (hrun : Run sessions soleCloser (World.init blockSize size mem) tr s) :
    (∀ p ∈ (sess tr).windows, p.2 ∈ s.dev.pendingBioList ∧ p.2 ∉ s.dev.incomingBioList ∧
      (∃ bio, s.bioAt p.2 = some bio ∧ bio ∉ s.biosOf s.dev.incomingBioList) ∧
      ∀ f signal t code req,
        sessionNext s (.headerRead f signal) = (t, .ret code (.header req)) → req.id ≠ p.2) ∧
    ((sess tr).windows.map Prod.snd).Nodup ∧ s.endedBios.Nodup ∧
    (∀ c, honest tr c → (sessionNext s c).2 ≠ .oops) ∧
    (∀ f r, ∀ p ∈ (sess tr).windows, p.1 ≠ f →
      p ∈ (sess (tr ++ [(.chRelease f, r)])).windows ∧
      p.2 ∈ (sessionNext s (.chRelease f)).1.dev.incomingBioList) := by
  obtain ⟨calls, hjoined⟩ := run_joined hrun
  have htracks := run_tracks hjoined.run
  obtain ⟨acts, hsp⟩ := run_spooled hjoined.run
  have hbios : (s.spool.waiting ++ (s.spool.held ++ s.spool.done)).Nodup :=
    (Spool.Run.conserved hsp.run).2
  rw [List.nodup_append', List.nodup_append'] at hbios
  have hpend : ∀ p ∈ (sess tr).windows, p.2 ∈ s.dev.pendingBioList := by
    intro p hp
    rw [htracks.owed]
    exact hjoined.served.mine p (hjoined.served.windows.subset hp)
  refine ⟨fun p hp => ?_, ?_, hbios.2.1.2.1, fun c hc => hjoined.no_fault hc, ?_⟩
  · have hin := hpend p hp
    have hout := htracks.wf.not_incoming hin
    obtain ⟨entry, he⟩ := htracks.wf.entry_of_pending hin
    refine ⟨hin, hout, ⟨entry.bio, bioAt_of_entry he, ?_⟩, ?_⟩
    · intro hwaiting
      exact hbios.2.2 hwaiting (List.mem_append_left _ (mem_biosOf hin he))
    · intro f signal t code req hread heq
      simp only [sessionNext] at hread
      rcases read_request_next htracks.wf f signal with
        ⟨-, hnext⟩ | ⟨a, rest, entry', hl, -, hnext⟩
      · rw [hnext] at hread
        cases signal <;> simp at hread
      · rw [hnext, Prod.mk.injEq, Ret.ret.injEq, Out.header.injEq] at hread
        obtain ⟨-, -, rfl⟩ := hread
        apply hout
        rw [hl, ← heq]
        exact List.mem_cons_self
  · exact hjoined.served.nodup.sublist (hjoined.served.windows.map _)
  · intro f r p hp hne
    refine ⟨?_, ?_⟩
    · rw [sess_snoc]
      exact List.mem_filter.mpr ⟨hp, by simpa using hne⟩
    · show p.2 ∈ s.dev.incomingBioList ++ s.dev.pendingBioList
      exact List.mem_append_right _ (hpend p hp)

end

section
attribute [local instance] linux32

/-- A bio is delivered on file 0; closing file 1 puts it back. -/
theorem close_takes_back : ¬ ExclusiveDelivery 512 1024 fun _ => 0 := by
  intro h
  have hrun := @path_exec _ _ _ sessions honest [] (World.init 512 1024 fun _ => 0)
    [.submit sampleWrite (some 16), .chOpen 0, .chOpen 1, .headerRead 0 false, .chRelease 1]
    (by decide)
  exact (h _ _ hrun).1 (0, 16) (by decide) (by decide)

/-- Two files serve one bio each, and the first is closed after its own is completed. -/
theorem exclusive_delivery_sample :
    (exec sessions (World.init 512 1024 fun _ => 0)
      [.submit sampleWrite (some 16), .submit sampleSecond (some 32), .chOpen 0, .chOpen 1,
        .headerRead 0 false, .headerRead 1 false, .finish 1 32 0, .finish 0 16 0,
        .chRelease 0]).endedBios.Nodup := by
  have hrun := @path_exec _ _ _ sessions soleCloser [] (World.init 512 1024 fun _ => 0)
    [.submit sampleWrite (some 16), .submit sampleSecond (some 32), .chOpen 0, .chOpen 1,
      .headerRead 0 false, .headerRead 1 false, .finish 1 32 0, .finish 0 16 0, .chRelease 0]
    (by decide)
  exact (exclusive_delivery hrun).2.2.1

end

end BDTun
