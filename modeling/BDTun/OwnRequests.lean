import BDTun.Isolation

/-!
# Clients that keep to their requests

The ids that clients write are addresses, and the driver does not check them.  What
keeps devices apart is what clients do: `mindingClients` set and act on nothing but
what they were handed out by their own device and still owe it, as far as the
outside can see, and their buffers are accessible.

* `clientHist`: what the users of a device have seen of it.
* `minding_keeps_own`: such clients keep to the entries of their device, so that
  `Isolation` is about their runs.
* `clients_stay_home`: whatever they do, they reach no bio of another device, and no
  call of theirs goes wrong.
-/

namespace BDTun

open Memory Machine

section
variable [Kernel]

/-- What the users of a device have seen of it since it was created. -/
def clientHist (name : DiskName) (tr : List (DriverCall × DriverRet)) : Hist :=
  hist (deviceHist (story name tr).calls).calls

/-- A call that goes through the cursor comes while the id last set is owed. -/
def Call.minds (h : Hist) : Call → Prop
  | .read _ count _ _ => count = bdtunTxreqHeaderSize ∨ h.lastSet ∈ h.owed
  | .write _ buf _ => buf.length = sizeofLong ∨ h.lastSet ∈ h.owed
  | .mmap _ vma _ => vma.shared = false ∨ h.lastSet ∈ h.owed
  | _ => True

instance (h : Hist) (c : Call) : Decidable (c.minds h) :=
  match c with
  | .read _ _ _ _ | .write _ _ _ | .mmap _ _ _ => inferInstanceAs (Decidable (_ ∨ _))
  | .submit _ _ | .chOpen _ | .chRelease _ | .tick => inferInstanceAs (Decidable True)

/-- The user's buffer is accessible where the driver goes through its address itself: in header reads,
set-current requests and completions. -/
def Call.buffered : Call → Prop
  | .read _ count valid _ => count = bdtunTxreqHeaderSize → count ≤ valid
  | .write _ buf valid => buf.length = sizeofLong ∨ buf.length = 1 → buf.length ≤ valid
  | _ => True

instance (c : Call) : Decidable c.buffered :=
  match c with
  | .read _ _ _ _ | .write _ _ _ => inferInstanceAs (Decidable (_ → _))
  | .mmap _ _ _ | .submit _ _ | .chOpen _ | .chRelease _ | .tick => inferInstanceAs (Decidable True)

def mindingClients : Policy DriverCall DriverRet := fun tr c =>
  driverUsers tr c ∧
  match c with
  | .tunnel name c => c.minds (clientHist name tr) ∧ c.buffered
  | _ => True

instance (tr : List (DriverCall × DriverRet)) (c : DriverCall) : Decidable (mindingClients tr c) :=
  match c with
  | .tunnel _ _ | .control _ | .pages _ _ | .tick => inferInstanceAs (Decidable (_ ∧ _))

/-! ## What a device's users have seen -/

/-- Opens and closes of the block device and removals are no calls on the tunnel. -/
theorem calls_other (h : DeviceHist) {c : DeviceCall} (hc : ∀ c', c ≠ .call c') (r : Ret) :
    (h.record (c, r)).calls = h.calls := by
  cases c with
  | call c => exact absurd rfl (hc c)
  | blkOpen b =>
    cases r with
    | ret code out =>
      simp only [DeviceHist.record]
      split <;> rfl
    | _ => rfl
  | blkRelease b => rfl
  | remove =>
    cases r with
    | ret code out =>
      simp only [DeviceHist.record]
      split <;> rfl
    | _ => rfl

/-- The pending list is what is owed, and the cursor is what was set last. -/
theorem device_tracks {blockSize size : Nat} {mem : Mem} {tr : List (DeviceCall × Ret)} {w : World}
    (hrun : Run device deviceUsers (.init blockSize size mem) tr w) :
    Tracks (hist (deviceHist tr).calls) w := by
  refine hrun.invariant (fun tr w => Tracks (hist (deviceHist tr).calls) w)
    ⟨World.Wf.init _ _ _, rfl, rfl⟩ ?_
  intro tr w c ht _ he
  rw [deviceHist_snoc]
  cases c with
  | call c =>
    have hcalls : ((deviceHist tr).record (.call c, (device.next w (.call c)).2)).calls =
        (deviceHist tr).calls ++ [(c, (tunnelNext w c).2)] := rfl
    rw [hcalls, hist_snoc]
    exact ht.next c he.1 he.2
  | blkOpen b =>
    have hlists : (bdtunOpen w.dev).1.incomingBioList = w.dev.incomingBioList ∧
        (bdtunOpen w.dev).1.pendingBioList = w.dev.pendingBioList ∧
        (bdtunOpen w.dev).1.dataCurrentBio = w.dev.dataCurrentBio := by
      unfold bdtunOpen
      split <;> exact ⟨rfl, rfl, rfl⟩
    rw [calls_other _ (by simp)]
    exact ⟨ht.wf.congr hlists.1 hlists.2.1 rfl, hlists.2.1.trans ht.owed,
      hlists.2.2.trans ht.lastSet⟩
  | blkRelease b => exact ⟨ht.wf.congr rfl rfl rfl, ht.owed, ht.lastSet⟩
  | remove =>
    have hlists : (removeCheck w.dev).1.incomingBioList = w.dev.incomingBioList ∧
        (removeCheck w.dev).1.pendingBioList = w.dev.pendingBioList ∧
        (removeCheck w.dev).1.dataCurrentBio = w.dev.dataCurrentBio := by
      unfold removeCheck
      split
      · exact ⟨rfl, rfl, rfl⟩
      · split <;> exact ⟨rfl, rfl, rfl⟩
    rw [calls_other _ (by simp)]
    exact ⟨ht.wf.congr hlists.1 hlists.2.1 rfl, hlists.2.1.trans ht.owed,
      hlists.2.2.trans ht.lastSet⟩

/-- The outside remembers nothing of the bytes of a payload. -/
theorem record_alike (hi : Hist) (c : Call) {r r' : Ret} (ha : AlikeRet r r') :
    hi.record (c, r) = hi.record (c, r') := by
  cases ha with
  | same => rfl
  | payload code bytes bytes' hlen => cases c <;> rfl

/-- So it has seen the same of a device that lives with others. -/
theorem hist_alike {calls own : List (DeviceCall × Ret)} (ha : List.Forall₂ AlikeStep calls own) :
    hist (deviceHist calls).calls = hist (deviceHist own).calls := by
  have hfold : ∀ d d' : DeviceHist, hist d.calls = hist d'.calls →
      hist (calls.foldl DeviceHist.record d).calls =
        hist (own.foldl DeviceHist.record d').calls := by
    induction ha with
    | nil => exact fun _ _ h => h
    | @cons e e' calls own hstep _ ih =>
      intro d d' hd
      refine ih _ _ ?_
      obtain ⟨c, r⟩ := e
      obtain ⟨c', r'⟩ := e'
      obtain ⟨rfl, hret⟩ : c = c' ∧ AlikeRet r r' := hstep
      by_cases hcall : ∃ k, c = .call k
      · obtain ⟨k, rfl⟩ := hcall
        show hist (d.calls ++ [(k, r)]) = hist (d'.calls ++ [(k, r')])
        rw [hist_snoc, hist_snoc, hd, record_alike _ k hret]
      · have hother : ∀ k, c ≠ .call k := fun k heq => hcall ⟨k, heq⟩
        rw [calls_other d hother, calls_other d' hother, hd]
  exact hfold _ _ rfl

/-! ## Minding clients keep apart -/

variable {blockSize size : Nat} {mem mem' : Mem} {h : CtrlHist} {subs : List (DiskName × Bio)}
  {tr : List (DriverCall × DriverRet)} {own : List (DeviceCall × Ret)} {s : Driver} {d : Device}
  {w : World}

/-- What they do through the cursor is on an entry that is pending on their own device. -/
theorem Lives.minds
    (hl : Lives (.init blockSize size mem) h subs (story d.diskName tr).calls s d own w) {c : Call}
    (hminds : c.minds (clientHist d.diskName tr)) {a : Addr} (ha : c.target (s.world d) = some a) :
    a ∈ d.pendingBioList := by
  have ht := device_tracks hl.run
  rw [← hist_alike hl.alike] at ht
  have hcursor : a = (clientHist d.diskName tr).lastSet :=
    (next_of_target ha).1.trans (hl.near.data.cursor.symm.trans ht.lastSet)
  have hpending : d.pendingBioList = (clientHist d.diskName tr).owed :=
    hl.near.data.pending.symm.trans ht.owed
  rw [hpending, hcursor]
  cases c with
  | read f count valid signal =>
    refine hminds.resolve_left fun hcount => ?_
    simp [Call.target, hcount] at ha
  | write f buf valid =>
    refine hminds.resolve_left fun hlen => ?_
    simp [Call.target, hlen] at ha
  | mmap f vma fail =>
    refine hminds.resolve_left fun hshared => ?_
    simp [Call.target, hshared] at ha
  | submit bio new => cases ha
  | chOpen f => cases ha
  | chRelease f => cases ha
  | tick => cases ha

/-- **Clients that keep to their requests** keep to the entries of their device. -/
theorem minding_keeps_own (hrun : Run wholeDriver mindingClients (.init mem) tr s) :
    Run (wholeDriver.restrict KeepsOwn) driverUsers (.init mem) tr s := by
  induction hrun with
  | refl => exact .refl
  | @step tr s c _ hp he ih =>
    refine ih.step c hp.1 ⟨he, ?_⟩
    cases c with
    | control c => trivial
    | pages ps bytes => trivial
    | tick => trivial
    | tunnel name c =>
      intro dev hfound a ha
      obtain ⟨hdev, rfl⟩ := find_some hfound
      obtain ⟨own, w, hl⟩ := (run_isolated 512 1024 mem ih).lives dev hdev
      exact List.mem_append_right _ (hl.minds hp.2.1 ha)

/-- The entries of a device are of bios that were submitted to it. -/
theorem Lives.home
    (hl : Lives (.init blockSize size mem) h subs (story d.diskName tr).calls s d own w) {a : Addr}
    (ha : a ∈ d.bioList) : ∃ entry, s.entries a = some entry ∧ (d.diskName, entry.bio) ∈ subs := by
  have hledgered := run_ledgered hl.run
  have hmem : a ∈ w.dev.incomingBioList ++ w.dev.pendingBioList := by
    rw [hl.near.data.incoming, hl.near.data.pending]
    exact ha
  obtain ⟨entry, hentry⟩ := Option.isSome_iff_exists.mp ((hledgered.wf.live a).mpr hmem)
  refine ⟨entry, ?_, hl.submitted _ (hledgered.live hentry).1⟩
  exact (hl.near.entries a ha).symm.trans hentry

/-- A call that does not go through the cursor looks at the head of the incoming list at most. -/
theorem no_target_ok {v : World} {c : Call} (hfile : c.onFile = true) (hnone : c.target v = none)
    (hlive : ∀ a ∈ v.dev.incomingBioList, (v.entries a).isSome) : (tunnelNext v c).2 ≠ .oops := by
  cases c with
  | submit bio new => simp [tunnelNext]
  | chOpen f => cases hfile
  | chRelease f => cases hfile
  | tick => cases hfile
  | read f count valid signal =>
    have hcount : count = bdtunTxreqHeaderSize := by
      by_contra hne
      simp [Call.target, hne] at hnone
    simp only [tunnelNext, bdtunchRead, if_pos hcount, World.readHeader]
    cases hlist : v.dev.incomingBioList with
    | nil => cases signal <;> simp
    | cons a rest =>
      have hhead := hlive a (by rw [hlist]; exact List.mem_cons_self)
      obtain ⟨entry, hentry⟩ := Option.isSome_iff_exists.mp hhead
      simp [hentry]
  | write f buf valid =>
    have hlen : buf.length = sizeofLong := by
      by_contra hne
      simp [Call.target, hne] at hnone
    simp [tunnelNext, bdtunchWrite_set v buf valid hlen]
  | mmap f vma fail =>
    have hshared : vma.shared = false := by
      by_contra hne
      simp [Call.target, hne] at hnone
    simp [tunnelNext, bdtunchMmap, vma_offset_aligned, hshared]

/-- **Clients that keep to their requests stay at home.**  In every run of the driver whose clients, on
any number of devices, act only on requests that their own device handed them and that they still owe,
with accessible buffers: every call that is made next finds its device; what it does through the
cursor is on a bio that was submitted to that device; and it does not go wrong. -/
theorem clients_stay_home (hrun : Run wholeDriver mindingClients (.init mem) tr s)
    {name : DiskName} {c : Call} (hp : mindingClients tr (.tunnel name c)) (hfile : c.onFile = true) :
    ∃ dev, bdtunFindDevice s.ctrl.deviceList name = some dev ∧
      (∀ a ∈ c.target (s.world dev),
        ∃ entry, s.entries a = some entry ∧ (name, entry.bio) ∈ submittedBios tr) ∧
      (KmallocOk (s.world dev) c → wholeDriver.enabled s (.tunnel name c)) := by
  have hkeeps := minding_keeps_own hrun
  have hlisted := run_listing hkeeps.unrestrict
  obtain ⟨dev, hdev, rfl⟩ := hlisted.called hfile hp.1
  have hfound := hlisted.find hdev
  obtain ⟨own, w, hl⟩ := (run_isolated 512 1024 mem hkeeps).lives dev hdev
  have hown : ∀ a ∈ c.target (s.world dev), a ∈ dev.bioList := fun a ha =>
    List.mem_append_right _ (hl.minds hp.2.1 ha)
  refine ⟨dev, hfound, fun a ha => hl.home (hown a ha), fun hfresh => ⟨hfile, ?_, ?_⟩⟩
  · intro e he
    obtain rfl := Option.some.inj (hfound.symm.trans he)
    exact hfresh
  · have hlinked : ∀ a ∈ c.frees dev.dataCurrentBio, a ∈ s.linked := fun a ha =>
      List.mem_flatMap.mpr ⟨dev, hdev, hown a (frees_target (v := s.world dev) ha)⟩
    have hok : (tunnelNext (s.world dev) c).2 ≠ .oops := by
      cases ht : c.target (s.world dev) with
      | none =>
        refine no_target_ok hfile ht fun a ha => ?_
        obtain ⟨entry, hentry, -⟩ := hl.home (List.mem_append_left _ ha)
        exact Option.isSome_iff_exists.mpr ⟨entry, hentry⟩
      | some a =>
        obtain ⟨entry, hentry, -⟩ := hl.home (hown a ht)
        rw [(next_of_target ht).2]
        exact body_of_live ht hentry
    show (wholeDriver.next s (.tunnel dev.diskName c)).2 ≠ _
    rw [tunnel_next hfound hlinked]
    simpa using hok

end

section
attribute [local instance] linux32

/-- The completion of the second device's request by its own client. -/
theorem clients_stay_home_sample :
    ∃ dev, bdtunFindDevice (exec wholeDriver (.init fun _ => 0) sampleHome).ctrl.deviceList
        otherName = some dev ∧
      ∃ entry, (exec wholeDriver (.init fun _ => 0) sampleHome).entries 16 = some entry ∧
        (otherName, entry.bio) ∈
          submittedBios (traceOf wholeDriver (.init fun _ => 0) sampleHome) := by
  have hrun := @path_exec _ _ _ wholeDriver mindingClients [] (.init fun _ => 0) sampleHome
    (by decide +kernel)
  obtain ⟨dev, hfound, hhome, -⟩ := clients_stay_home hrun
    (show mindingClients _ (.tunnel otherName (.write 0 [0] 1)) by decide +kernel) rfl
  refine ⟨dev, hfound, hhome 16 ?_⟩
  have hcursor : ∀ d ∈ bdtunFindDevice
      (exec wholeDriver (.init fun _ => 0) sampleHome).ctrl.deviceList otherName,
      Call.target ((exec wholeDriver (.init fun _ => 0) sampleHome).world d) (.write 0 [0] 1) =
        some 16 := by decide +kernel
  exact hcursor dev hfound

end

end BDTun
