import BDTun.Hosted
import BDTun.Isolation

/-!
# The devices of a driver are so many byte arrays

`rack` is the whole driver with one client at each device: sessions on the control
device, opens and closes, creates, resizes and removals, submitters on all devices,
writes to other pages, and the clients, each a loop of read, set, transfer and
complete on its own tunnel, in any order.

* `Racked`, `run_racked`: each listed device with its client is hosted.
* `devices_are_disks`: in every run, each listed device is the byte array of
  `applyBio`, on its own.
-/

namespace BDTun

open Memory Machine

section
variable [Kernel]

/-! ## Clients and driver -/

structure Rack where
  driver : Driver
  clients : DiskName → Client

inductive RackEvent
  /-- a call on the control device, an open or a close of a node, or a queued work item -/
  | control (c : CtrlCall)
  /-- the submitter fills the segments with `data` and submits the bio -/
  | submit (name : DiskName) (bio : Bio) (data : List UInt8) (new : Option Addr)
  | scribble (ps : List Place) (bytes : List UInt8)
  | tick
  /-- the next call of the client of a device -/
  | client (name : DiskName)

/-- What the data-current bio of a device holds. -/
def Driver.loaded (s : Driver) (name : DiskName) : List Loaded :=
  match bdtunFindDevice s.ctrl.deviceList name with
  | none => []
  | some dev => (s.world dev).loaded

/-- A create that succeeds gives the client of that name a new device. -/
def renewed (clients : DiskName → Client) : CtrlCall × DriverRet → DiskName → Client
  | (.ctrlWrite _ (.create name _ _ _) _, .control (.wrote _ _)) =>
    Function.update clients name (clients name).renew
  | _ => clients

def Client.answered (k : Client) (l : LibCall) (loaded : List Loaded) : DriverRet → Client
  | .tunnel r => k.after l loaded r
  | .control _ => k

/-- An event, and the calls on the driver it consists of with their answers. -/
def Rack.next (r : Rack) : RackEvent → Rack × List (DriverCall × DriverRet)
  | .control c =>
    let (s, ret) := driverNext r.driver (.control c)
    (⟨s, renewed r.clients (c, ret)⟩, [(.control c, ret)])
  | .submit name bio data new =>
    let (filled, ret₁) := driverNext r.driver (.pages bio.places data)
    let (s, ret₂) := driverNext filled (.tunnel name (.submit bio new))
    let k := r.clients name
    (⟨s, Function.update r.clients name
        { k with accepted := k.accepted ++ new.toList.map fun _ => (bio, data) }⟩,
      [(.pages bio.places data, ret₁), (.tunnel name (.submit bio new), ret₂)])
  | .scribble ps bytes =>
    let (s, ret) := driverNext r.driver (.pages ps bytes)
    (⟨s, r.clients⟩, [(.pages ps bytes, ret)])
  | .tick =>
    let (s, ret) := driverNext r.driver .tick
    (⟨s, r.clients⟩, [(.tick, ret)])
  | .client name =>
    match (r.clients name).call with
    | none => (r, [])
    | some l =>
      let (s, ret) := driverNext r.driver (.tunnel name l.call)
      (⟨s, Function.update r.clients name
          ((r.clients name).answered l (r.driver.loaded name) ret)⟩,
        [(.tunnel name l.call, ret)])

/-- Submitters keep off the segments of outstanding bios.  A client is not interrupted by signals
(`Client.call`), and a close of any tunnel file of its device, also of one that is not its own, waits
until it has no request in hand. -/
def Rack.Enabled (r : Rack) : RackEvent → Prop
  | .control c =>
    wholeDriver.enabled r.driver (.control c) ∧
      ∀ name f, c = .releases name (.tunnel, f) → (r.clients name).phase = .idle
  | .submit name bio data new =>
    (∀ dev ∈ bdtunFindDevice r.driver.ctrl.deviceList name,
      KmallocOk (r.driver.world dev) (.submit bio new)) ∧
      SectorBio bio ∧ data.length = bio.biSize ∧ ∀ other ∈ r.driver.outstanding, Apart bio other
  | .scribble ps _ => ∀ other ∈ r.driver.outstanding, ∀ p ∈ ps, p ∉ other.places
  | _ => True

def rack : Machine Rack RackEvent (List (DriverCall × DriverRet)) where
  enabled := Rack.Enabled
  next := Rack.next

/-- The calls on the driver. -/
def driverPart (tr : List (RackEvent × List (DriverCall × DriverRet))) :
    List (DriverCall × DriverRet) := tr.flatMap Prod.snd

/-- A client makes its calls on the tunnel file that it has open. -/
def rackUsers : Policy RackEvent (List (DriverCall × DriverRet)) := fun tr e =>
  match e with
  | .control c => driverUsers (driverPart tr) (.control c)
  | .submit name bio _ new => driverUsers (driverPart tr) (.tunnel name (.submit bio new))
  | .client name => (name, (Node.tunnel, 0)) ∈ (ctrlHist (controlPart (driverPart tr))).handles
  | _ => True

instance (tr : List (RackEvent × List (DriverCall × DriverRet))) (e : RackEvent) :
    Decidable (rackUsers tr e) :=
  match e with
  | .control c => inferInstanceAs (Decidable (driverUsers (driverPart tr) (.control c)))
  | .submit name bio _ new =>
    inferInstanceAs (Decidable (driverUsers (driverPart tr) (.tunnel name (.submit bio new))))
  | .client name => inferInstanceAs
      (Decidable ((name, (Node.tunnel, 0)) ∈ (ctrlHist (controlPart (driverPart tr))).handles))
  | .scribble _ _ => inferInstanceAs (Decidable True)
  | .tick => inferInstanceAs (Decidable True)

/-- The module when it is loaded, and the clients with their stores. -/
def Rack.start (mem : Mem) (stores : DiskName → Store) : Rack where
  driver := .init mem
  clients name := ⟨stores name, .idle, stores name, [], []⟩

/-! ## The rack -/

variable {s s' : Driver} {d d' : Device} {k : Client} {l : LibCall}

/-- No byte is in segments of two bios that the driver has. -/
def Driver.BiosApart (s : Driver) : Prop :=
  ∀ a ∈ s.linked, ∀ b ∈ s.linked, a ≠ b → ∀ bio bio', s.bioAt a = some bio →
    s.bioAt b = some bio' → Apart bio bio'

structure Racked (mem : Mem) (tr : List (DriverCall × DriverRet)) (r : Rack) : Prop where
  run : Run wholeDriver driverUsers (.init mem) tr r.driver
  apart : r.driver.BiosApart
  served : ∀ d ∈ r.driver.ctrl.deviceList,
    ∃ t fin rest, Hosted r.driver d (r.clients d.diskName) t fin rest

variable {mem : Mem} {tr : List (DriverCall × DriverRet)} {r : Rack}

theorem mem_linked (hd : d ∈ s.ctrl.deviceList) {a : Addr} (ha : a ∈ d.bioList) : a ∈ s.linked :=
  List.mem_flatMap.mpr ⟨d, hd, ha⟩

theorem mem_outstanding {a : Addr} (ha : a ∈ s.linked) {bio : Bio} (hbio : s.bioAt a = some bio) :
    bio ∈ s.outstanding := List.mem_filterMap.mpr ⟨a, ha, hbio⟩

/-- Where the lists only shrink. -/
theorem Driver.BiosApart.shrink (h : s.BiosApart) (hl : ∀ a ∈ s'.linked, a ∈ s.linked)
    (hb : ∀ a ∈ s'.linked, s'.bioAt a = s.bioAt a) : s'.BiosApart := by
  intro a ha b hbl hne bio bio' hbio hbio'
  rw [hb a ha] at hbio
  rw [hb b hbl] at hbio'
  exact h a (hl a ha) b (hl b hbl) hne bio bio' hbio hbio'

/-- A call that leaves devices and entries alone, and pages with outstanding bios. -/
theorem Racked.still (hr : Racked mem tr r) {c : DriverCall} (hp : driverUsers tr c)
    (he : wholeDriver.enabled r.driver c)
    (hctrl : (wholeDriver.next r.driver c).1.ctrl = r.driver.ctrl)
    (hentries : (wholeDriver.next r.driver c).1.entries = r.driver.entries)
    (hended : (wholeDriver.next r.driver c).1.ended = r.driver.ended)
    (hmem : ∀ bio ∈ r.driver.outstanding, gather (wholeDriver.next r.driver c).1.mem bio.places =
      gather r.driver.mem bio.places) :
    Racked mem (tr ++ [(c, (wholeDriver.next r.driver c).2)])
      ⟨(wholeDriver.next r.driver c).1, r.clients⟩ := by
  have hbio : (wholeDriver.next r.driver c).1.bioAt = r.driver.bioAt := by
    funext a
    rw [Driver.bioAt, Driver.bioAt, hentries]
  have hlinked : (wholeDriver.next r.driver c).1.linked = r.driver.linked := by
    rw [Driver.linked, Driver.linked, hctrl]
  refine ⟨hr.run.step c hp he, ?_, fun d hd => ?_⟩
  · exact hr.apart.shrink (by rw [hlinked]; exact fun _ h => h) fun a _ => by rw [hbio]
  · have hold : d ∈ r.driver.ctrl.deviceList := by
      rw [← hctrl]
      exact hd
    obtain ⟨t, fin, rest, hs⟩ := hr.served d hold
    refine ⟨t, fin, rest, hs.other rfl rfl rfl (fun a _ => by rw [hbio]) (fun a ha bio hat => ?_) ?_⟩
    · exact hmem bio (mem_outstanding (mem_linked hold ha) hat)
    · rw [hended]
      exact fun _ h => h

/-- Writes to other pages. -/
theorem Racked.pages (hr : Racked mem tr r) (ps : List Place) (bytes : List UInt8)
    (hfar : ∀ other ∈ r.driver.outstanding, ∀ p ∈ ps, p ∉ other.places) :
    Racked mem (tr ++ [(.pages ps bytes, (wholeDriver.next r.driver (.pages ps bytes)).2)])
      ⟨(wholeDriver.next r.driver (.pages ps bytes)).1, r.clients⟩ := by
  refine hr.still trivial trivial rfl rfl rfl fun bio hbio => ?_
  exact gather_scatter_of_disjoint _ _ _ _ fun p hp hps => hfar bio hbio p hps hp

theorem Racked.tick (hr : Racked mem tr r) :
    Racked mem (tr ++ [(.tick, (wholeDriver.next r.driver .tick).2)])
      ⟨(wholeDriver.next r.driver .tick).1, r.clients⟩ :=
  hr.still trivial trivial rfl rfl rfl fun _ _ => rfl

/-! ## Calls on the devices -/

/-- What was ended stays so. -/
theorem ended_grows {v : World} {c : Call} (hr : (tunnelNext v c).2 ≠ .oops) :
    ∀ e ∈ v.ended, e ∈ (tunnelNext v c).1.ended := by
  have heff := effect_of_next v c hr
  generalize tunnelNext v c = res at heff
  cases heff with
  | refused bio => exact fun e he => List.mem_append_left _ he
  | completed f byte valid entry hentry => exact fun e he => List.mem_append_left _ he
  | _ => exact fun _ he => he

/-- No call but a submission puts entries on the lists of its device, or changes those there. -/
theorem lists_shrink {v : World} {c : Call}
    (hnodup : (v.dev.incomingBioList ++ v.dev.pendingBioList).Nodup) (hfile : c.onFile = true)
    (hr : (tunnelNext v c).2 ≠ .oops) (hc : ∀ bio new, c ≠ .submit bio new) :
    ∀ a ∈ (tunnelNext v c).1.dev.incomingBioList ++ (tunnelNext v c).1.dev.pendingBioList,
      a ∈ v.dev.incomingBioList ++ v.dev.pendingBioList ∧
        (tunnelNext v c).1.entries a = v.entries a := by
  have heff := effect_of_next v c hr
  generalize tunnelNext v c = res at heff
  cases heff with
  | refused bio => exact absurd rfl (hc bio none)
  | queued bio new => exact absurd rfl (hc bio (some new))
  | opened f h => cases hfile
  | closed f => cases hfile
  | ticked j => cases hfile
  | delivered f valid signal a rest entry hl he =>
    intro b hb
    have hmem : b ∈ rest ++ (v.dev.pendingBioList ++ [a]) := hb
    refine ⟨?_, rfl⟩
    rw [hl]
    simp only [List.mem_append, List.mem_cons, List.not_mem_nil] at hmem ⊢
    tauto
  | completed f byte valid entry hentry =>
    intro b hb
    have hold := mem_erased hnodup hb
    exact ⟨hold.1, Function.update_of_ne hold.2 _ _⟩
  | _ => exact fun _ hb => ⟨hb, rfl⟩

omit [Kernel] in
/-- Nor does taking an entry from the lists. -/
theorem unlink_shrink (d : Device) (freed : Option Addr) :
    ∀ a ∈ (freed.elim d fun b => d.unlink b).bioList, a ∈ d.bioList := by
  cases freed with
  | none => exact fun _ h => h
  | some b =>
    intro a ha
    rcases List.mem_append.mp ha with hin | hin
    · exact List.mem_append_left _ (List.mem_filter.mp hin).1
    · exact List.mem_append_right _ (List.mem_filter.mp hin).1

/-- A call on a device, for that device and the others. -/
theorem Racked.put (hr : Racked mem tr r) (hd : d ∈ r.driver.ctrl.deviceList) {w : World}
    {freed : Option Addr} {k' : Client} {tr' : List (DriverCall × DriverRet)}
    (hrun : Run wholeDriver driverUsers (.init mem) tr' (r.driver.put d w freed))
    (hown : ∃ t fin rest, Hosted (r.driver.put d w freed) (d.withBdtun w.dev) k' t fin rest)
    (hfrees : ∀ a ∈ freed, a ∈ d.bioList)
    (hentries : ∀ e ∈ r.driver.ctrl.deviceList, e ≠ d → ∀ a ∈ e.bioList,
      w.entries a = r.driver.entries a)
    (hpages : ∀ e ∈ r.driver.ctrl.deviceList, e ≠ d → ∀ a ∈ e.bioList, ∀ bio,
      r.driver.bioAt a = some bio → gather w.mem bio.places = gather r.driver.mem bio.places)
    (hended : ∀ e ∈ r.driver.ended, e ∈ w.ended) (hapart : (r.driver.put d w freed).BiosApart) :
    Racked mem tr' ⟨r.driver.put d w freed, Function.update r.clients d.diskName k'⟩ := by
  have hlisted := run_listing hr.run
  have hnodup := (run_accounted hr.run).linked_nodup
  refine ⟨hrun, hapart, fun e' he' => ?_⟩
  obtain ⟨e, he, rfl⟩ := List.mem_map.mp he'
  by_cases haddr : e.addr = d.addr
  · obtain rfl := hlisted.eq_of_addr he hd haddr
    obtain ⟨t, fin, rest, hs⟩ := hown
    refine ⟨t, fin, rest, ?_⟩
    rw [if_pos rfl]
    show Hosted _ _ (Function.update r.clients e.diskName k' e.diskName) _ _ _
    rw [Function.update_self]
    exact hs
  · have hne : e ≠ d := fun heq => haddr (congrArg Device.addr heq)
    have hname : e.diskName ≠ d.diskName := fun heq => hne (hlisted.eq_of_name he hd heq)
    have hkept : SameQueues e.toBdtun (freed.elim e fun a => e.unlink a).toBdtun := by
      cases freed with
      | none => exact .refl _
      | some a =>
        exact unlink_same fun hmem => bioList_apart hnodup he hd hne hmem (hfrees a rfl)
    have hsame : (freed.elim e fun a => e.unlink a).diskName = e.diskName := by
      cases freed <;> rfl
    obtain ⟨t, fin, rest, hs⟩ := hr.served e he
    refine ⟨t, fin, rest, ?_⟩
    rw [if_neg haddr, hsame]
    show Hosted _ _ (Function.update r.clients d.diskName k' e.diskName) _ _ _
    rw [Function.update_of_ne hname]
    exact hs.other hkept.incoming hkept.pending hkept.cursor
      (fun a hmem => congrArg (Option.map BioListEntry.bio) (hentries e he hne a hmem))
      (fun a hmem bio hbio => hpages e he hne a hmem bio hbio) hended

/-- What is on the lists after a call was there before, or is on the lists of its device. -/
theorem put_cases {w : World} {freed : Option Addr} {a : Addr} (ha : a ∈ (s.put d w freed).linked) :
    a ∈ w.dev.incomingBioList ++ w.dev.pendingBioList ∨
      ∃ e ∈ s.ctrl.deviceList, e.addr ≠ d.addr ∧ a ∈ e.bioList := by
  obtain ⟨e', he', hmem⟩ := List.mem_flatMap.mp ha
  obtain ⟨e, he, rfl⟩ := List.mem_map.mp he'
  by_cases haddr : e.addr = d.addr
  · rw [if_pos haddr] at hmem
    exact .inl hmem
  · rw [if_neg haddr] at hmem
    exact .inr ⟨e, he, haddr, unlink_shrink e freed a hmem⟩

/-- A call of a client, for its device and the others. -/
theorem Racked.client (hbits : bitsPerLong = 64) (hr : Racked mem tr r) {name : DiskName}
    (hp : (name, (Node.tunnel, 0)) ∈ (ctrlHist (controlPart tr)).handles) {l : LibCall}
    (hl : (r.clients name).call = some l) :
    Racked mem (tr ++ [(.tunnel name l.call, (wholeDriver.next r.driver (.tunnel name l.call)).2)])
      ⟨(wholeDriver.next r.driver (.tunnel name l.call)).1, Function.update r.clients name
        ((r.clients name).answered l (r.driver.loaded name)
          (wholeDriver.next r.driver (.tunnel name l.call)).2)⟩ := by
  have hlisted := run_listing hr.run
  have hacc := run_accounted hr.run
  obtain ⟨dev, hdev, rfl⟩ := hlisted.homes _ hp
  have hfound := hlisted.find hdev
  obtain ⟨hfile, hfresh, hns, hmay⟩ := client_call hl
  obtain ⟨t, fin, rest, hs⟩ := hr.served dev hdev
  have ha := hs.act hbits hl
  have hnext := tunnel_next (c := l.call) hfound fun a hmem => mem_linked hdev (ha.frees a hmem)
  have he : wholeDriver.enabled r.driver (.tunnel dev.diskName l.call) := by
    refine ⟨hfile, fun d _ => hfresh _, ?_⟩
    have hok := ha.ok
    show (wholeDriver.next r.driver (.tunnel dev.diskName l.call)).2 ≠ _
    rw [hnext]
    simpa using hok
  have hp' : driverUsers ([] ++ tr) (.tunnel dev.diskName l.call) := hmay _ _ _ hp
  have hrun := hr.run.step (.tunnel dev.diskName l.call) hp' he
  have hloaded : r.driver.loaded dev.diskName = (r.driver.world dev).loaded := by
    rw [Driver.loaded, hfound]
  rw [hnext] at hrun ⊢
  rw [hloaded]
  have hfar : ∀ e ∈ r.driver.ctrl.deviceList, e ≠ dev → ∀ a ∈ e.bioList, ∀ b ∈ dev.bioList, a ≠ b :=
    fun e he hne a hmem b hb heq => bioList_apart hacc.linked_nodup he hdev hne hmem (heq ▸ hb)
  have hentries : ∀ e ∈ r.driver.ctrl.deviceList, e ≠ dev → ∀ a ∈ e.bioList,
      (tunnelNext (r.driver.world dev) l.call).1.entries a = r.driver.entries a :=
    fun e he hne a hmem => entries_kept (v := r.driver.world dev) hfile (hfresh _) ha.ok
      (hacc.linked_live (mem_linked he hmem)) fun b hb => hfar e he hne a hmem b (ha.frees b hb)
  have hworld : (r.driver.put dev (tunnelNext (r.driver.world dev) l.call).1
      (l.call.frees dev.dataCurrentBio)).world
      (dev.withBdtun (tunnelNext (r.driver.world dev) l.call).1.dev) =
      (tunnelNext (r.driver.world dev) l.call).1 := rfl
  refine hr.put hdev hrun ⟨t.client, hs.client hbits hl hworld⟩ ha.frees hentries
    (fun e he hne a hmem bio hbio => ha.pages bio fun b hb bio' hbio' => ?_) (ended_grows ha.ok) ?_
  · exact hr.apart a (mem_linked he hmem) b (mem_linked hdev hb) (hfar e he hne a hmem b hb) bio bio'
      hbio hbio'
  · have hnodup : dev.bioList.Nodup := (List.nodup_flatMap.mp hacc.linked_nodup).1 dev hdev
    have hshrink := lists_shrink (v := r.driver.world dev) hnodup hfile ha.ok hns
    refine hr.apart.shrink (fun a ha' => ?_) fun a ha' => ?_
    · rcases put_cases ha' with hmine | ⟨e, he, -, hmem⟩
      · exact mem_linked hdev (hshrink a hmine).1
      · exact mem_linked he hmem
    · rcases put_cases ha' with hmine | ⟨e, he, haddr, hmem⟩
      · exact congrArg (Option.map BioListEntry.bio) (hshrink a hmine).2
      · have hne : e ≠ dev := fun heq => haddr (congrArg Device.addr heq)
        exact congrArg (Option.map BioListEntry.bio) (hentries e he hne a hmem)

/-- A submission, for its device and the others. -/
theorem Racked.submit (hr : Racked mem tr r) {name : DiskName} {bio : Bio} {data : List UInt8}
    {new : Option Addr} (hp : driverUsers tr (.tunnel name (.submit bio new)))
    (hk : ∀ dev ∈ bdtunFindDevice r.driver.ctrl.deviceList name,
      KmallocOk (r.driver.world dev) (.submit bio new)) (hbio : SectorBio bio)
    (hlen : data.length = bio.biSize) (hapart : ∀ other ∈ r.driver.outstanding, Apart bio other)
    (hfilled : gather r.driver.mem bio.places = data) :
    Racked mem (tr ++ [(.tunnel name (.submit bio new),
        (wholeDriver.next r.driver (.tunnel name (.submit bio new))).2)])
      ⟨(wholeDriver.next r.driver (.tunnel name (.submit bio new))).1,
        Function.update r.clients name { r.clients name with
          accepted := (r.clients name).accepted ++ new.toList.map fun _ => (bio, data) }⟩ := by
  have hlisted := run_listing hr.run
  have hacc := run_accounted hr.run
  obtain ⟨dev, hdev, rfl⟩ := hlisted.called (c := .submit bio new) rfl hp
  have hfound := hlisted.find hdev
  have hok : (tunnelNext (r.driver.world dev) (.submit bio new)).2 ≠ .oops := by simp [tunnelNext]
  have hnext := tunnel_next (c := .submit bio new) hfound fun a ha => by cases ha
  have he : wholeDriver.enabled r.driver (.tunnel dev.diskName (.submit bio new)) := by
    refine ⟨rfl, hk, ?_⟩
    show (wholeDriver.next r.driver (.tunnel dev.diskName (.submit bio new))).2 ≠ _
    rw [hnext]
    simpa using hok
  have hp' : driverUsers ([] ++ tr) (.tunnel dev.diskName (.submit bio new)) := hp
  have hrun := hr.run.step (.tunnel dev.diskName (.submit bio new)) hp' he
  rw [hnext] at hrun ⊢
  have hfar : ∀ a ∈ r.driver.linked, ∀ other, r.driver.bioAt a = some other → Apart bio other :=
    fun a ha other hat => hapart other (mem_outstanding ha hat)
  have hentries : ∀ a ∈ r.driver.linked,
      (tunnelNext (r.driver.world dev) (.submit bio new)).1.entries a = r.driver.entries a :=
    fun a ha => entries_kept (v := r.driver.world dev) rfl (hk dev hfound) hok (hacc.linked_live ha)
      fun b hb => by cases hb
  have hmem : (tunnelNext (r.driver.world dev) (.submit bio new)).1.mem = r.driver.mem := by
    cases new <;> rfl
  have hworld : (r.driver.put dev (tunnelNext (r.driver.world dev) (.submit bio new)).1
      (Call.frees dev.dataCurrentBio (.submit bio new))).world
      (dev.withBdtun (tunnelNext (r.driver.world dev) (.submit bio new)).1.dev) =
      (tunnelNext (r.driver.world dev) (.submit bio new)).1 := rfl
  obtain ⟨t, fin, rest, hs⟩ := hr.served dev hdev
  have hown := hs.submit (hk dev hfound) hbio hlen
    (fun a ha other hat => hfar a (mem_linked hdev ha) other hat) hfilled
    (fun a ha => hacc.linked_live (mem_linked hdev ha)) hworld
  refine hr.put hdev hrun ⟨_, hown⟩ (fun a ha => by cases ha)
    (fun e he' _ a ha => hentries a (mem_linked he' ha))
    (fun e he' _ a ha other hat => by rw [hmem]) (ended_grows hok) ?_
  have hcases : ∀ a ∈ (r.driver.put dev (tunnelNext (r.driver.world dev) (.submit bio new)).1
      (Call.frees dev.dataCurrentBio (.submit bio new))).linked,
      (a ∈ r.driver.linked ∧ (tunnelNext (r.driver.world dev) (.submit bio new)).1.bioAt a =
        r.driver.bioAt a) ∨
      (some a = new ∧
        (tunnelNext (r.driver.world dev) (.submit bio new)).1.bioAt a = some bio) := by
    intro a ha
    have hold : ∀ e ∈ r.driver.ctrl.deviceList, a ∈ e.bioList → a ∈ r.driver.linked ∧
        (tunnelNext (r.driver.world dev) (.submit bio new)).1.bioAt a = r.driver.bioAt a :=
      fun e he' hmem => ⟨mem_linked he' hmem,
        congrArg (Option.map BioListEntry.bio) (hentries a (mem_linked he' hmem))⟩
    rcases put_cases ha with hmine | ⟨e, he', -, hmem⟩
    · cases new with
      | none => exact .inl (hold dev hdev hmine)
      | some new =>
        have hlists : a ∈ dev.incomingBioList ++ [new] ++ dev.pendingBioList := hmine
        by_cases hnew : a = new
        · subst hnew
          exact .inr ⟨rfl, by simp [tunnelNext, bdtunMakeRequest, World.bioAt]⟩
        · simp only [List.mem_append, List.mem_singleton, hnew, or_false] at hlists
          exact .inl (hold dev hdev (List.mem_append.mpr hlists))
    · exact .inl (hold e he' hmem)
  intro a ha b hb hne bio₁ bio₂ hat₁ hat₂
  rcases hcases a ha with ⟨ha', hsame₁⟩ | ⟨hnew₁, hsub₁⟩
  · rcases hcases b hb with ⟨hb', hsame₂⟩ | ⟨hnew₂, hsub₂⟩
    · exact hr.apart a ha' b hb' hne bio₁ bio₂ (hsame₁.symm.trans hat₁) (hsame₂.symm.trans hat₂)
    · obtain rfl := Option.some.inj (hsub₂.symm.trans hat₂)
      exact (hfar a ha' bio₁ (hsame₁.symm.trans hat₁)).symm
  · rcases hcases b hb with ⟨hb', hsame₂⟩ | ⟨hnew₂, hsub₂⟩
    · obtain rfl := Option.some.inj (hsub₁.symm.trans hat₁)
      exact hfar b hb' bio₂ (hsame₂.symm.trans hat₂)
    · exact absurd (Option.some.inj (hnew₁.trans hnew₂.symm)) hne

/-! ## Calls of the control plane -/

omit [Kernel] in
/-- Opens and closes leave the lists alone, unless a tunnel is closed with bios pending. -/
theorem nodeNext_lists (b : Bdtun) (c : NodeCall)
    (h : ∀ f, c = .releases (.tunnel, f) → b.pendingBioList = []) :
    (nodeNext b c).1.incomingBioList = b.incomingBioList ∧
      (nodeNext b c).1.pendingBioList = b.pendingBioList ∧
      (nodeNext b c).1.dataCurrentBio = b.dataCurrentBio := by
  cases c with
  | opens k =>
    obtain ⟨node, n⟩ := k
    cases node with
    | block =>
      simp only [nodeNext, bdtunOpen]
      split <;> exact ⟨rfl, rfl, rfl⟩
    | tunnel =>
      simp only [nodeNext, bdtunchOpen]
      split <;> exact ⟨rfl, rfl, rfl⟩
  | releases k =>
    obtain ⟨node, n⟩ := k
    cases node with
    | block => exact ⟨rfl, rfl, rfl⟩
    | tunnel =>
      have hnone := h n rfl
      refine ⟨?_, hnone.symm, rfl⟩
      show b.incomingBioList ++ b.pendingBioList = b.incomingBioList
      rw [hnone, List.append_nil]
  | remove =>
    simp only [nodeNext, removeCheck]
    split
    · exact ⟨rfl, rfl, rfl⟩
    · split <;> exact ⟨rfl, rfl, rfl⟩

/-- The lists and the cursor of two devices are the same. -/
structure SameLists (d d' : Device) : Prop where
  incoming : d'.incomingBioList = d.incomingBioList
  pending : d'.pendingBioList = d.pendingBioList
  cursor : d'.dataCurrentBio = d.dataCurrentBio

omit [Kernel] in
/-- What an open or a close does to the devices, with no bio pending where a tunnel is closed. -/
theorem nodeCall_lists {h : CtrlHist} {c : Ctrl} (hl : Listed h c) (name : DiskName) (x : NodeCall)
    (hidle : ∀ e ∈ c.deviceList, e.diskName = name → ∀ f, x = .releases (.tunnel, f) →
      e.pendingBioList = []) :
    ∀ d' ∈ (nodeCall c name x).1.deviceList,
      ∃ e ∈ c.deviceList, d'.diskName = e.diskName ∧ SameLists e d' := by
  intro d' hd'
  unfold nodeCall at hd'
  cases hf : bdtunFindDevice c.deviceList name with
  | none =>
    simp only [hf] at hd'
    exact ⟨d', hd', rfl, rfl, rfl, rfl⟩
  | some dev =>
    simp only [hf] at hd'
    obtain ⟨hdev, hname⟩ := find_some hf
    obtain ⟨e, he, rfl⟩ := mem_update.mp hd'
    refine ⟨e, he, ?_⟩
    by_cases haddr : e.addr = dev.addr
    · obtain rfl := hl.eq_of_addr he hdev haddr
      obtain ⟨hi, hp, hc⟩ := nodeNext_lists e.toBdtun x (hidle e he hname)
      rw [if_pos rfl]
      exact ⟨rfl, hi, hp, hc⟩
    · rw [if_neg haddr]
      exact ⟨rfl, rfl, rfl, rfl⟩

/-- What a call of the control plane does to the devices: it leaves their lists alone, or makes one. -/
theorem control_lists {h : CtrlHist} {s : Ctrl} (hl : Listed h s) {c : CtrlCall}
    (hr : (controlNext s c).2 ≠ .oops)
    (hidle : ∀ e ∈ s.deviceList, ∀ f, c = .releases e.diskName (.tunnel, f) →
      e.pendingBioList = []) :
    ∀ d' ∈ (controlNext s c).1.deviceList,
      (∃ e ∈ s.deviceList, d'.diskName = e.diskName ∧ SameLists e d' ∧
        ¬ MakesDevice e.diskName (c, (controlNext s c).2)) ∨
      MakesDevice d'.diskName (c, (controlNext s c).2) ∧
        ∀ blockSize size, SameQueues d'.toBdtun (newBdtun blockSize size) := by
  have hcommand : nodeOf c = none → ∀ d' ∈ (controlNext s c).1.deviceList,
      (∃ e ∈ s.deviceList, d'.diskName = e.diskName ∧ SameLists e d' ∧
        ¬ MakesDevice e.diskName (c, (controlNext s c).2)) ∨
      MakesDevice d'.diskName (c, (controlNext s c).2) ∧
        ∀ blockSize size, SameQueues d'.toBdtun (newBdtun blockSize size) := by
    intro hn d' hd'
    rcases control_devices hn hr d' hd' with ⟨⟨e, he, hname, hdata⟩, hquiet⟩ | hmade
    · rw [hname] at hquiet
      exact .inl ⟨e, he, hname, ⟨hdata.incoming, hdata.pending, hdata.cursor⟩, hquiet⟩
    · exact .inr ⟨hmade.creates, hmade.fresh⟩
  cases c with
  | opens name x =>
    intro d' hd'
    obtain ⟨e, he, hname, hlists⟩ := nodeCall_lists hl name (.opens x) (fun _ _ _ _ h => by cases h)
      d' hd'
    exact .inl ⟨e, he, hname, hlists, fun h => h⟩
  | releases name x =>
    intro d' hd'
    have hnone : ∀ e ∈ s.deviceList, e.diskName = name → ∀ f,
        NodeCall.releases x = .releases (.tunnel, f) → e.pendingBioList = [] := by
      intro e he hname f hx
      refine hidle e he f ?_
      rw [hname, NodeCall.releases.inj hx]
    obtain ⟨e, he, hname, hlists⟩ := nodeCall_lists hl name (.releases x) hnone d' hd'
    exact .inl ⟨e, he, hname, hlists, fun h => h⟩
  | ctrlOpen => exact hcommand rfl
  | ctrlRelease => exact hcommand rfl
  | ctrlWrite count c k => exact hcommand rfl
  | ctrlRead count valid => exact hcommand rfl
  | addDisk w => exact hcommand rfl

/-- The clients after a command that makes no device of that name. -/
theorem renewed_other (clients : DiskName → Client) {c : CtrlCall} {ret : CtrlRet} {name : DiskName}
    (h : ¬ MakesDevice name (c, ret)) : renewed clients (c, .control ret) name = clients name := by
  cases c with
  | ctrlWrite count cmd k =>
    cases cmd with
    | create n blocksize size capabilities =>
      cases ret with
      | wrote code l =>
        have hne : name ≠ n := fun hname => h hname.symm
        exact Function.update_of_ne hne _ _
      | _ => rfl
    | _ => rfl
  | _ => rfl

theorem renewed_made (clients : DiskName → Client) {c : CtrlCall} {ret : CtrlRet} {name : DiskName}
    (h : MakesDevice name (c, ret)) :
    renewed clients (c, .control ret) name = (clients name).renew := by
  unfold MakesDevice at h
  split at h
  · next count n blocksize size capabilities k code l heq =>
    obtain ⟨rfl, rfl⟩ := Prod.mk.inj heq
    subst h
    exact Function.update_self _ _ _
  · exact h.elim

/-- A call of the control plane. -/
theorem Racked.control (hbits : bitsPerLong = 64) (hr : Racked mem tr r) {c : CtrlCall}
    (hp : driverUsers tr (.control c)) (he : wholeDriver.enabled r.driver (.control c))
    (hidle : ∀ name f, c = .releases name (.tunnel, f) → (r.clients name).phase = .idle) :
    Racked mem (tr ++ [(.control c, (wholeDriver.next r.driver (.control c)).2)])
      ⟨(wholeDriver.next r.driver (.control c)).1,
        renewed r.clients (c, (wholeDriver.next r.driver (.control c)).2)⟩ := by
  have hlisted := run_listing hr.run
  have hpending : ∀ e ∈ r.driver.ctrl.deviceList, ∀ f, c = .releases e.diskName (.tunnel, f) →
      e.pendingBioList = [] := by
    intro e hmem f hc
    obtain ⟨t, fin, rest, hs⟩ := hr.served e hmem
    exact hs.idle (hidle e.diskName f hc)
  have hlists := control_lists hlisted he.2 hpending
  have hp' : driverUsers ([] ++ tr) (.control c) := hp
  refine ⟨hr.run.step (.control c) hp' he, ?_, fun d' hd' => ?_⟩
  · refine hr.apart.shrink (fun a ha => ?_) fun _ _ => rfl
    obtain ⟨d', hd', hmem⟩ := List.mem_flatMap.mp ha
    rcases hlists d' hd' with ⟨e, hemem, -, hsame, -⟩ | ⟨-, hfresh⟩
    · refine mem_linked hemem ?_
      rw [Device.bioList, ← hsame.incoming, ← hsame.pending]
      exact hmem
    · rw [Device.bioList, ← (hfresh 0 0).incoming, ← (hfresh 0 0).pending] at hmem
      cases hmem
  · rcases hlists d' hd' with ⟨e, hemem, hname, hsame, hquiet⟩ | ⟨hmade, hfresh⟩
    · obtain ⟨t, fin, rest, hs⟩ := hr.served e hemem
      refine ⟨t, fin, rest, ?_⟩
      show Hosted _ _ (renewed r.clients (c, .control (controlNext r.driver.ctrl c).2) d'.diskName)
        _ _ _
      rw [hname, renewed_other _ hquiet]
      exact hs.other hsame.incoming hsame.pending hsame.cursor (fun _ _ => rfl)
        (fun _ _ _ _ => rfl) fun _ h => h
    · refine ⟨Server.start kernelSectorSize (2 ^ 64 - kernelSectorSize) mem
        (r.clients d'.diskName).store, [], [], ?_⟩
      show Hosted _ _ (renewed r.clients (c, .control (controlNext r.driver.ctrl c).2) d'.diskName)
        _ _ _
      rw [renewed_made _ hmade]
      exact .new hbits mem hfresh _

theorem driverPart_snoc (tr : List (RackEvent × List (DriverCall × DriverRet)))
    (e : RackEvent × List (DriverCall × DriverRet)) :
    driverPart (tr ++ [e]) = driverPart tr ++ e.2 := by simp [driverPart]

/-- A submitter fills the segments of its bio and submits it. -/
theorem Racked.filled (hr : Racked mem tr r) {name : DiskName} {bio : Bio} {data : List UInt8}
    {new : Option Addr} (hp : driverUsers tr (.tunnel name (.submit bio new)))
    (he : Rack.Enabled r (.submit name bio data new)) :
    Racked mem (tr ++ (r.next (.submit name bio data new)).2)
      (r.next (.submit name bio data new)).1 := by
  obtain ⟨hk, hbio, hlen, hapart⟩ := he
  have hpages := hr.pages bio.places data fun other ho p hmem =>
    hapart other ho p hmem
  have hp' : driverUsers (tr ++ [(.pages bio.places data,
      (wholeDriver.next r.driver (.pages bio.places data)).2)])
      (.tunnel name (.submit bio new)) := by
    unfold driverUsers at hp ⊢
    rw [controlPart_other _ fun _ h => (by cases h), submittedBios_append]
    simpa [submittedBios] using hp
  have hplaces : data.length = bio.places.length := by rw [length_places, hbio.total, hlen]
  have hsubmit := hpages.submit hp' hk hbio hlen hapart (gather_scatter _ _ _ hbio.nodup hplaces)
  rw [List.append_assoc] at hsubmit
  exact hsubmit

theorem client_next_none {name : DiskName} (hl : (r.clients name).call = none) :
    rack.next r (.client name) = (r, []) := by
  show r.next (.client name) = _
  rw [Rack.next, hl]

theorem client_next_some {name : DiskName} (hl : (r.clients name).call = some l) :
    rack.next r (.client name) =
      (⟨(wholeDriver.next r.driver (.tunnel name l.call)).1, Function.update r.clients name
        ((r.clients name).answered l (r.driver.loaded name)
          (wholeDriver.next r.driver (.tunnel name l.call)).2)⟩,
        [(.tunnel name l.call, (wholeDriver.next r.driver (.tunnel name l.call)).2)]) := by
  show r.next (.client name) = _
  rw [Rack.next, hl]
  rfl

/-- **Every run**: the calls are a run of the driver, no two of its bios share a byte, and each
listed device with its client is near to a server that serves alone. -/
theorem run_racked {stores : DiskName → Store} (hbits : bitsPerLong = 64)
    {tr : List (RackEvent × List (DriverCall × DriverRet))}
    (hrun : Run rack rackUsers (Rack.start mem stores) tr r) : Racked mem (driverPart tr) r := by
  refine hrun.invariant (fun tr r => Racked mem (driverPart tr) r) ?_ ?_
  · exact ⟨.refl, fun a ha => (by cases ha), fun d hd => (by cases hd)⟩
  · intro tr r e hr hp he
    rw [driverPart_snoc]
    cases e with
    | control c => exact hr.control hbits hp he.1 he.2
    | submit name bio data new => exact hr.filled hp he
    | scribble ps bytes => exact hr.pages ps bytes he
    | tick => exact hr.tick
    | client name =>
      cases hl : (r.clients name).call with
      | none =>
        rw [client_next_none hl, List.append_nil]
        exact hr
      | some l =>
        rw [client_next_some hl]
        exact hr.client hbits hp hl

/-- **Every device is a disk of its own.**  Let `unsigned long` have 64 bits, and let the driver be
used in any way: sessions on the control device, devices made, resized and removed, submitters and one
serial client at each device, in any order.  Then for each device on the list: no call of its client
has failed; the bios the client completed are the first of those that its device accepted since it was
created, in order; each was ended with status 0; when the client has no request in hand, its store is
what the byte array is after these bios; and the segments of a read held, when it was completed, what
the byte array held after the bios before it. -/
theorem devices_are_disks {stores : DiskName → Store} (hbits : bitsPerLong = 64)
    {tr : List (RackEvent × List (DriverCall × DriverRet))}
    (hrun : Run rack rackUsers (Rack.start mem stores) tr r) :
    ∀ d ∈ r.driver.ctrl.deviceList, ∀ k, r.clients d.diskName = k →
      k.phase ≠ .failed ∧
      k.done.map Prod.fst = (k.accepted.take k.done.length).map Prod.fst ∧
      (∀ p ∈ k.done, (p.1, 0) ∈ r.driver.ended) ∧
      (k.phase = .idle → k.store = applyAll k.base (k.accepted.take k.done.length)) ∧
      (∀ i bio data, k.done[i]? = some (bio, data) → bioDataDir bio = dirRead →
        data = readAt (applyAll k.base (k.accepted.take i)) bio.byteOffset bio.biSize) := by
  rintro d hd k rfl
  obtain ⟨t, fin, rest, hs⟩ := (run_racked hbits hrun).served d hd
  have hstands := hs.serving.stands
  unfold Stands at hstands
  obtain ⟨hdone, hended⟩ := hs.right
  refine ⟨hs.not_failed, hdone, hended, fun hidle => ?_, fun i bio data hi hdir => ?_⟩
  · rw [hs.phase, hidle] at hstands
    rw [← hs.store, hs.taken]
    exact hstands.2
  · obtain ⟨hlt, -⟩ := List.getElem?_eq_some_iff.mp hi
    have hfin : i ≤ fin.length := by
      have hlen := hs.done_length
      omega
    rw [hs.split, List.take_append_of_le_length hfin]
    rw [← hs.done] at hi
    exact hs.serving.answers i bio data hi hdir

end

section
attribute [local instance] linux32

theorem sampleWrite_sectors : SectorBio sampleWrite := by
  refine ⟨by decide, by decide, by decide, by decide, ?_⟩
  show ([BioVec.sector 7].flatMap BioVec.places).Nodup
  rw [List.flatMap_singleton]
  exact BioVec.nodup_places _

/-- Two devices with open tunnels, and a write to the second. -/
def sampleLoaded : List RackEvent :=
  [.control .ctrlOpen, .control (.ctrlWrite 64 (.create sampleName 512 1024 0) sampleAnswers),
    .control (.ctrlWrite 64 (.create otherName 512 1024 0) otherAnswers),
    .control (.opens sampleName (.tunnel, 0)), .control (.opens otherName (.block, 0)),
    .control (.opens otherName (.tunnel, 0)),
    .submit otherName sampleWrite (List.replicate 512 7) (some 16)]

theorem sampleLoaded_run :
    Run rack rackUsers (Rack.start (fun _ => 0) fun _ _ => 0)
      (traceOf rack (Rack.start (fun _ => 0) fun _ _ => 0) sampleLoaded)
      (exec rack (Rack.start (fun _ => 0) fun _ _ => 0) sampleLoaded) := by
  have hstart : Run rack rackUsers (Rack.start (fun _ => 0) fun _ _ => 0) [] _ := .refl
  have hsession := hstart.step (RackEvent.control .ctrlOpen) (by decide +kernel)
    ⟨by decide +kernel, nofun⟩
  have hfirst := hsession.step
    (RackEvent.control (.ctrlWrite 64 (.create sampleName 512 1024 0) sampleAnswers))
    (by decide +kernel) ⟨by decide +kernel, nofun⟩
  have hsecond := hfirst.step
    (RackEvent.control (.ctrlWrite 64 (.create otherName 512 1024 0) otherAnswers))
    (by decide +kernel) ⟨by decide +kernel, nofun⟩
  have hopens := hsecond.step (RackEvent.control (.opens sampleName (.tunnel, 0)))
    (by decide +kernel) ⟨by decide +kernel, nofun⟩
  have hblock := hopens.step (RackEvent.control (.opens otherName (.block, 0)))
    (by decide +kernel) ⟨by decide +kernel, nofun⟩
  have htunnel := hblock.step (RackEvent.control (.opens otherName (.tunnel, 0)))
    (by decide +kernel) ⟨by decide +kernel, nofun⟩
  exact htunnel.step (RackEvent.submit otherName sampleWrite (List.replicate 512 7) (some 16))
    (by decide +kernel)
    ⟨by decide +kernel, sampleWrite_sectors, List.length_replicate, fun other ho => nomatch ho⟩

/-- It is served, while the client of the first device waits. -/
def sampleRack : List RackEvent :=
  sampleLoaded ++ [.client otherName, .client otherName, .client sampleName, .client otherName,
    .client otherName]

theorem devices_are_disks_sample :
    ∃ d ∈ (exec rack (Rack.start (fun _ => 0) fun _ _ => 0) sampleRack).driver.ctrl.deviceList,
      d.diskName = otherName ∧
      ((exec rack (Rack.start (fun _ => 0) fun _ _ => 0) sampleRack).clients otherName).phase ≠
        .failed := by
  have hread := sampleLoaded_run.step (RackEvent.client otherName) (by decide +kernel) trivial
  have hset := hread.step (RackEvent.client otherName) (by decide +kernel) trivial
  have hsleep := hset.step (RackEvent.client sampleName) (by decide +kernel) trivial
  have hget := hsleep.step (RackEvent.client otherName) (by decide +kernel) trivial
  have hcomplete := hget.step (RackEvent.client otherName) (by decide +kernel) trivial
  have hlisted : (bdtunFindDevice (exec rack (Rack.start (fun _ => 0) fun _ _ => 0)
      sampleRack).driver.ctrl.deviceList otherName).isSome = true := by decide +kernel
  obtain ⟨d, hd⟩ := Option.isSome_iff_exists.mp hlisted
  obtain ⟨hmem, hname⟩ := find_some hd
  refine ⟨d, hmem, hname, ?_⟩
  rw [← hname]
  exact (devices_are_disks rfl hcomplete d hmem _ rfl).1

end

end BDTun
