import BDTun.Conservation
import BDTun.Driver

/-!
# The bios of all devices

Bios come in on any device, and a completion ends whatever bio the cursor leads to,
on whichever device's list it is, or on what a removal left of one: a removal frees
the device and not the list entries.

* `Accounted`: every allocated entry is on a list or left behind, once; every bio
  that was submitted is ended or in such an entry, once.
* `every_bio_accounted`: that in every run of the driver, whatever the clients do.
-/

namespace BDTun

open Memory Machine

section
variable [Kernel]

/-! ## The lists of all devices -/

/-- The bios on the lists of all devices. -/
def Driver.outstanding (s : Driver) : List Bio :=
  s.linked.filterMap fun a => (s.entries a).map BioListEntry.bio

/-- The bios of the entries that removals left behind. -/
def Driver.abandoned (s : Driver) : List Bio :=
  s.leftBehind.flatten.filterMap fun a => (s.entries a).map BioListEntry.bio

/-- The entries on lists, and those left behind. -/
def Driver.held (s : Driver) : List Addr := s.linked ++ s.leftBehind.flatten

/-- Their bios. -/
def Driver.heldBios (s : Driver) : List Bio :=
  s.held.filterMap fun a => (s.entries a).map BioListEntry.bio

/-- The bios that were ended. -/
def Driver.endedBios (s : Driver) : List Bio := s.ended.map Prod.fst

variable {s : Driver} {h : CtrlHist}

omit [Kernel] in
/-- The list, around a device. -/
theorem Listed.around {s : Ctrl} (hl : Listed h s) {dev : Device} (hd : dev ∈ s.deviceList) :
    ∃ before after, s.deviceList = before ++ dev :: after ∧
      ∀ d ∈ before ++ after, d.addr ≠ dev.addr := by
  obtain ⟨before, after, hlist⟩ := List.append_of_mem hd
  refine ⟨before, after, hlist, fun d hmem haddr => ?_⟩
  have haddrs := hl.addrs
  rw [hlist, List.map_append, List.map_cons] at haddrs
  have hperm : (before.map Device.addr ++ dev.addr :: after.map Device.addr).Perm
      (dev.addr :: (before ++ after).map Device.addr) := by
    rw [List.map_append]
    exact List.perm_middle
  have hnodup := hperm.nodup_iff.mp haddrs
  exact (List.nodup_cons.mp hnodup).1 (List.mem_map.mpr ⟨d, hmem, haddr⟩)

/-- A call that frees nothing changes the lists of its device. -/
theorem put_linked (hl : Listed h s.ctrl) {dev : Device} (hd : dev ∈ s.ctrl.deviceList) (w : World) :
    ∃ before after, s.linked = before ++ (dev.bioList ++ after) ∧
      (s.put dev w none).linked =
        before ++ (w.dev.incomingBioList ++ w.dev.pendingBioList ++ after) := by
  obtain ⟨before, after, hlist, hothers⟩ := hl.around hd
  have hkeep : ∀ d ∈ before ++ after,
      (if d.addr = dev.addr then d.withBdtun w.dev else d).bioList = d.bioList := fun d hmem => by
    rw [if_neg (hothers d hmem)]
  have hbefore := List.flatMap_congr fun d hmem => hkeep d (List.mem_append_left after hmem)
  have hafter := List.flatMap_congr fun d hmem => hkeep d (List.mem_append_right before hmem)
  refine ⟨before.flatMap Device.bioList, after.flatMap Device.bioList, ?_, ?_⟩
  · rw [Driver.linked, hlist, List.flatMap_append, List.flatMap_cons]
  · rw [Driver.linked, Driver.put]
    simp only [Option.elim_none, hlist, List.map_append, List.map_cons, if_true,
      List.flatMap_append, List.flatMap_cons, List.flatMap_map, hbefore, hafter]
    rfl

omit [Kernel] in
/-- An address is on a list once. -/
theorem erase_filter {l : List Addr} (hl : l.Nodup) (a : Addr) :
    l.erase a = l.filter fun b => b ≠ a := by
  rw [hl.erase_eq_filter]
  exact List.filter_congr fun b _ => Bool.eq_iff_iff.mpr (by simp)

/-- A call that frees an entry takes it from the list it is on. -/
theorem put_freed (hl : Listed h s.ctrl) {dev : Device} (hd : dev ∈ s.ctrl.deviceList) {w : World}
    {a : Addr} (hi : w.dev.incomingBioList = dev.incomingBioList.filter fun b => b ≠ a)
    (hp : w.dev.pendingBioList = dev.pendingBioList.filter fun b => b ≠ a) :
    (s.put dev w (some a)).linked = s.linked.filter fun b => b ≠ a := by
  rw [Driver.linked, Driver.linked, Driver.put, List.filter_flatMap]
  simp only [List.flatMap_map]
  refine List.flatMap_congr fun d hmem => ?_
  split
  · next haddr =>
    obtain rfl := hl.eq_of_addr hmem hd haddr
    have hlists : (d.withBdtun w.dev).bioList = w.dev.incomingBioList ++ w.dev.pendingBioList := rfl
    rw [hlists, hi, hp, ← List.filter_append]
    rfl
  · have hlists : (d.unlink a).bioList =
        d.incomingBioList.filter (fun b => b ≠ a) ++ d.pendingBioList.filter fun b => b ≠ a := rfl
    rw [Option.elim_some, hlists, ← List.filter_append]
    rfl

/-- What was left behind loses it as well. -/
theorem left_freed (dev : Device) (w : World) (a : Addr) :
    (s.put dev w (some a)).leftBehind.flatten = s.leftBehind.flatten.filter fun b => b ≠ a := by
  rw [List.filter_flatten]
  rfl

/-! ## Every bio is accounted for -/

/-- The bios that came in, against those the driver has ended and those it has. -/
structure Accounted (subs : List Bio) (s : Driver) : Prop where
  nodup : s.held.Nodup
  live : ∀ a, (s.entries a).isSome ↔ a ∈ s.held
  once : subs.Nodup
  bios : subs.Perm (s.endedBios ++ s.heldBios)

variable {subs : List Bio} {t : Driver}

/-- Bios may change their lists, or be left behind. -/
theorem Accounted.moved (ha : Accounted subs s) (hheld : t.held.Perm s.held)
    (hentries : t.entries = s.entries) (hended : t.ended = s.ended) : Accounted subs t := by
  refine ⟨hheld.nodup_iff.mpr ha.nodup, fun a => ?_, ha.once, ?_⟩
  · rw [hentries]
    exact (ha.live a).trans hheld.mem_iff.symm
  · have hbios : t.heldBios.Perm s.heldBios := by
      rw [Driver.heldBios, hentries]
      exact hheld.filterMap _
    rw [Driver.endedBios, hended]
    exact ha.bios.trans (hbios.symm.append_left _)

/-- A bio that gets no list entry is ended at once. -/
theorem Accounted.refused (ha : Accounted subs s) {bio : Bio} (hfresh : bio ∉ subs)
    (hheld : t.held = s.held) (hentries : t.entries = s.entries) {error : Int}
    (hended : t.ended = s.ended ++ [(bio, error)]) : Accounted (subs ++ [bio]) t := by
  refine ⟨by rw [hheld]; exact ha.nodup, by rw [hheld, hentries]; exact ha.live, ?_, ?_⟩
  · exact List.nodup_append'.mpr ⟨ha.once, List.nodup_singleton _, by simpa using hfresh⟩
  · have hsame : t.heldBios = s.heldBios := by
      rw [Driver.heldBios, hheld, hentries]
      rfl
    have hbios : t.endedBios = s.endedBios ++ [bio] := by
      rw [Driver.endedBios, hended, List.map_append]
      rfl
    rw [hbios, hsame, List.append_assoc, List.singleton_append]
    have hmid : (bio :: (s.endedBios ++ s.heldBios)).Perm (s.endedBios ++ bio :: s.heldBios) :=
      List.perm_middle.symm
    exact (List.perm_append_singleton _ _).trans ((ha.bios.cons bio).trans hmid)

/-- A bio with a new entry is on a list. -/
theorem Accounted.queued (ha : Accounted subs s) {bio : Bio} (hfresh : bio ∉ subs) {new : Addr}
    (hnew : s.entries new = none) {startTime : Nat} (hheld : t.held.Perm (new :: s.held))
    (hentries : t.entries = Function.update s.entries new (some ⟨bio, startTime⟩))
    (hended : t.ended = s.ended) : Accounted (subs ++ [bio]) t := by
  have hnot : new ∉ s.held := fun hmem => by
    have hlive := (ha.live new).mpr hmem
    rw [hnew] at hlive
    cases hlive
  have hsame : ∀ a, a ≠ new → t.entries a = s.entries a := fun a hne => by
    rw [hentries, Function.update_of_ne hne]
  refine ⟨hheld.nodup_iff.mpr (List.nodup_cons.mpr ⟨hnot, ha.nodup⟩), fun a => ?_, ?_, ?_⟩
  · rw [hheld.mem_iff, List.mem_cons]
    by_cases hne : a = new
    · subst hne
      rw [hentries, Function.update_self]
      exact ⟨fun _ => .inl rfl, fun _ => rfl⟩
    · rw [hsame a hne, ha.live a]
      exact ⟨.inr, fun hmem => hmem.resolve_left hne⟩
  · exact List.nodup_append'.mpr ⟨ha.once, List.nodup_singleton _, by simpa using hfresh⟩
  · have hbios : t.heldBios.Perm (bio :: s.heldBios) := by
      refine (hheld.filterMap _).trans ?_
      rw [List.filterMap_cons_some (b := bio) (by rw [hentries, Function.update_self]; rfl)]
      refine List.Perm.of_eq (congrArg (bio :: ·) ?_)
      exact List.filterMap_congr fun a hmem => by rw [hsame a fun heq => hnot (heq ▸ hmem)]
    rw [Driver.endedBios, hended]
    have hmid : (bio :: (s.endedBios ++ s.heldBios)).Perm (s.endedBios ++ t.heldBios) :=
      List.perm_middle.symm.trans (hbios.symm.append_left _)
    exact (List.perm_append_singleton _ _).trans ((ha.bios.cons bio).trans hmid)

/-- A completion ends the bio of an entry, whosever list that is on. -/
theorem Accounted.completed (ha : Accounted subs s) {a : Addr} {entry : BioListEntry}
    (hentry : s.entries a = some entry) {error : Int}
    (hheld : t.held = s.held.filter fun b => b ≠ a)
    (hentries : t.entries = Function.update s.entries a none)
    (hended : t.ended = s.ended ++ [(entry.bio, error)]) : Accounted subs t := by
  have hmem : a ∈ s.held := (ha.live a).mp (Option.isSome_iff_exists.mpr ⟨entry, hentry⟩)
  have herase : t.held = s.held.erase a := by rw [hheld, erase_filter ha.nodup]
  have hsame : ∀ b, b ≠ a → t.entries b = s.entries b := fun b hne => by
    rw [hentries, Function.update_of_ne hne]
  refine ⟨?_, fun b => ?_, ha.once, ?_⟩
  · rw [herase]
    exact ha.nodup.erase a
  · rw [herase, ha.nodup.mem_erase_iff]
    by_cases hne : b = a
    · subst hne
      rw [hentries, Function.update_self]
      exact ⟨fun h => absurd h (by simp), fun h => absurd rfl h.1⟩
    · rw [hsame b hne, ha.live b]
      exact ⟨fun h => ⟨hne, h⟩, And.right⟩
  · have hbios : s.heldBios.Perm (entry.bio :: t.heldBios) := by
      have hperm := (List.perm_cons_erase hmem).filterMap
        fun b => (s.entries b).map BioListEntry.bio
      rw [List.filterMap_cons_some (b := entry.bio) (by rw [hentry]; rfl), ← herase] at hperm
      refine hperm.trans (List.Perm.of_eq (congrArg (entry.bio :: ·) ?_))
      refine List.filterMap_congr fun b hb => ?_
      rw [herase] at hb
      rw [hsame b (ha.nodup.mem_erase_iff.mp hb).1]
    have hended' : t.endedBios = s.endedBios ++ [entry.bio] := by
      rw [Driver.endedBios, hended, List.map_append]
      rfl
    rw [hended', List.append_assoc, List.singleton_append]
    exact ha.bios.trans (hbios.append_left _)

/-- No two of the entries on lists are the same. -/
theorem Accounted.linked_nodup (ha : Accounted subs s) : s.linked.Nodup :=
  (List.nodup_append'.mp ha.nodup).1

theorem Accounted.linked_live (ha : Accounted subs s) {a : Addr} (hmem : a ∈ s.linked) :
    (s.entries a).isSome := (ha.live a).mpr (List.mem_append_left _ hmem)

/-! ## Calls of the control plane -/

omit [Kernel] in
theorem nodeNext_bioList (b : Bdtun) (c : NodeCall) :
    (nodeNext b c).1.incomingBioList ++ (nodeNext b c).1.pendingBioList =
      b.incomingBioList ++ b.pendingBioList := by
  cases c with
  | opens k =>
    obtain ⟨node, n⟩ := k
    cases node with
    | block =>
      simp only [nodeNext, bdtunOpen]
      split <;> rfl
    | tunnel =>
      simp only [nodeNext, bdtunchOpen]
      split <;> rfl
  | releases k =>
    obtain ⟨node, n⟩ := k
    cases node with
    | block => rfl
    | tunnel => exact List.append_nil _
  | remove =>
    simp only [nodeNext, removeCheck]
    split
    · rfl
    · split <;> rfl

omit [Kernel] in
/-- A write to a device that leaves what is on its lists. -/
theorem linked_update {s : Ctrl} {a : Addr} {f : Device → Device}
    (hf : ∀ d ∈ s.deviceList, d.addr = a → (f d).bioList = d.bioList) :
    (s.update a f).deviceList.flatMap Device.bioList = s.deviceList.flatMap Device.bioList := by
  rw [Ctrl.update, List.flatMap_map]
  refine List.flatMap_congr fun d hd => ?_
  split
  · next haddr => exact hf d hd haddr
  · rfl

omit [Kernel] in
theorem nodeCall_linked {s : Ctrl} (hl : Listed h s) (name : DiskName) (c : NodeCall) :
    (nodeCall s name c).1.deviceList.flatMap Device.bioList =
      s.deviceList.flatMap Device.bioList := by
  unfold nodeCall
  cases hf : bdtunFindDevice s.deviceList name with
  | none => rfl
  | some dev =>
    refine linked_update fun d hd haddr => ?_
    obtain rfl := hl.eq_of_addr hd (find_some hf).1 haddr
    exact nodeNext_bioList d.toBdtun c

/-- No call but a removal takes entries from the lists, and none puts entries there. -/
theorem control_linked {s : Ctrl} (hl : Listed h s) {c : CtrlCall}
    (hr : (controlNext s c).2 ≠ .oops)
    (hc : ∀ count name k, c ≠ .ctrlWrite count (.remove name) k) :
    (controlNext s c).1.deviceList.flatMap Device.bioList =
      s.deviceList.flatMap Device.bioList := by
  have heff := ctrl_effect s c hr
  cases c with
  | opens name k => exact nodeCall_linked hl name (.opens k)
  | releases name k => exact nodeCall_linked hl name (.releases k)
  | ctrlOpen =>
    generalize controlNext s .ctrlOpen = res at heff
    cases heff with
    | missed name k c hcall => simp at hcall
    | _ => rfl
  | ctrlRelease => rfl
  | ctrlRead count valid =>
    generalize controlNext s (.ctrlRead count valid) = res at heff
    cases heff with
    | missed name k c hcall => simp at hcall
    | _ => rfl
  | addDisk w =>
    generalize controlNext s (.addDisk w) = res at heff
    cases heff with
    | missed name k c hcall => simp at hcall
    | added w work hw => exact linked_update fun _ _ _ => rfl
  | ctrlWrite count c k =>
    generalize controlNext s (.ctrlWrite count c k) = res at heff
    cases heff with
    | missed name k c hcall => simp at hcall
    | refused => rfl
    | noDisk => rfl
    | answered => rfl
    | created count name blocksize size capabilities k new queue major chNum gd w =>
      rw [List.flatMap_append, List.flatMap_singleton]
      exact List.append_nil _
    | resized count name size k dev hf => exact linked_update fun _ _ _ => rfl
    | notResized count name size k dev hf e he => exact linked_update fun _ _ _ => rfl
    | removed count name k dev => exact absurd rfl (hc count name k)

/-- A removal that goes on takes the entries of its device from the lists. -/
theorem remove_linked {s : Ctrl} (hl : Listed h s) (count : Nat) (name : DiskName) (k : Answers)
    (hr : (ctrlWrite s count (.remove name) k).2 ≠ .oops) :
    ((∃ code, (ctrlWrite s count (.remove name) k).2 = .ret code) ∧
      (ctrlWrite s count (.remove name) k).1 = s) ∨
    ∃ dev, bdtunFindDevice s.deviceList name = some dev ∧
      (ctrlWrite s count (.remove name) k).2 = .wrote count [] ∧
      (s.deviceList.flatMap Device.bioList).Perm (dev.bioList ++
        (ctrlWrite s count (.remove name) k).1.deviceList.flatMap Device.bioList) := by
  have heff := write_effect s count (.remove name) k hr
  generalize ctrlWrite s count (.remove name) k = res at heff
  cases heff with
  | refused count c k code hneg => exact .inl ⟨⟨code, rfl⟩, rfl⟩
  | answered count c k hc => cases hc
  | missed name k c hcall => simp at hcall
  | removed count name k dev hf =>
    refine .inr ⟨dev, hf, rfl, ?_⟩
    obtain ⟨before, after, hlist, hothers⟩ := hl.around (find_some hf).1
    have hkeep : s.deviceList.filter (fun d => d.addr ≠ dev.addr) = before ++ after := by
      have hself : ¬ decide (dev.addr ≠ dev.addr) = true := by simp
      rw [hlist, List.filter_append, List.filter_cons, if_neg hself]
      rw [List.filter_eq_self.mpr fun d hd => by simpa using hothers d (List.mem_append_left _ hd),
        List.filter_eq_self.mpr fun d hd => by simpa using hothers d (List.mem_append_right _ hd)]
    show (s.deviceList.flatMap Device.bioList).Perm
      (dev.bioList ++ (s.deviceList.filter fun d => d.addr ≠ dev.addr).flatMap Device.bioList)
    rw [hkeep, hlist, List.flatMap_append, List.flatMap_append, List.flatMap_cons]
    exact List.perm_append_comm_assoc _ _ _

omit [Kernel] in
theorem left_perm {all own rest left : List Addr} (h : all.Perm (own ++ rest)) :
    (rest ++ (left ++ own)).Perm (all ++ left) := by
  refine List.Perm.trans ?_ (h.append_right left).symm
  rw [← List.append_assoc, List.append_assoc own]
  exact List.perm_append_comm

/-! ## Every run -/

theorem submittedBios_snoc (tr : List (DriverCall × DriverRet)) (e : DriverCall × DriverRet) :
    (submittedBios (tr ++ [e])).map Prod.snd = (submittedBios tr).map Prod.snd ++
      (submittedBios [e]).map Prod.snd := by
  rw [submittedBios_append, List.map_append]

/-- Only completions free an entry. -/
theorem frees_none {c : Call} (hc : ∀ f byte valid, c ≠ .write f [byte] valid) (cursor : Addr) :
    c.frees cursor = none := by
  unfold Call.frees
  split
  · next f byte valid => exact absurd rfl (hc f byte valid)
  · rfl

/-- And they come to the entry that the cursor points to. -/
theorem completes {w : World} {f : FileId} {byte : UInt8} {valid : Nat}
    (hr : (tunnelNext w (.write f [byte] valid)).2 ≠ .oops) :
    ∃ entry error, w.entries w.dev.dataCurrentBio = some entry ∧
      (tunnelNext w (.write f [byte] valid)).1 = w.finish w.dev.dataCurrentBio entry error := by
  have hnext : tunnelNext w (.write f [byte] valid) = w.complete w.dev.dataCurrentBio byte :=
    bdtunchWrite_byte w byte valid
  rw [hnext] at hr ⊢
  unfold World.complete at hr ⊢
  cases hentry : w.entries w.dev.dataCurrentBio with
  | none => simp [hentry] at hr
  | some entry => exact ⟨entry, _, rfl, rfl⟩

/-- A completion, whichever device's entry it works on. -/
theorem Accounted.byte (ha : Accounted subs s) (hl : Listed h s.ctrl) {name : DiskName}
    {f : FileId} {byte : UInt8} {valid : Nat} {dev : Device}
    (hc : Calls s name (.write f [byte] valid) dev) :
    Accounted subs (s.put dev (tunnelNext (s.world dev) (.write f [byte] valid)).1
      (some dev.dataCurrentBio)) := by
  have hd := (find_some hc.found).1
  obtain ⟨entry, error, hentry, hnext⟩ := completes hc.ok
  rw [hnext]
  obtain ⟨before, after, hlist, -⟩ := put_linked hl hd (s.world dev)
  have hnodup := ha.linked_nodup
  rw [hlist, List.nodup_append'] at hnodup
  have hown := List.nodup_append'.mp (List.nodup_append'.mp hnodup.2.1).1
  refine ha.completed hentry ?_ rfl rfl
  have hlinked := put_freed hl hd (w := (s.world dev).finish dev.dataCurrentBio entry error)
    (erase_filter hown.1 _) (erase_filter hown.2.1 _)
  show (s.put dev ((s.world dev).finish dev.dataCurrentBio entry error)
      (some dev.dataCurrentBio)).linked ++
    (s.put dev ((s.world dev).finish dev.dataCurrentBio entry error)
      (some dev.dataCurrentBio)).leftBehind.flatten = _
  rw [hlinked, left_freed, ← List.filter_append]
  rfl

/-- Every other call on a device. -/
theorem Accounted.call (ha : Accounted subs s) (hl : Listed h s.ctrl) {name : DiskName}
    {c : Call} {dev : Device} (hc : Calls s name c dev)
    (hbyte : ∀ f byte valid, c ≠ .write f [byte] valid)
    (hfresh : ∀ bio new, c = .submit bio new → bio ∉ subs) (r : DriverRet) :
    Accounted (subs ++ (submittedBios [(.tunnel name c, r)]).map Prod.snd)
      (s.put dev (tunnelNext (s.world dev) c).1 none) := by
  have hd := (find_some hc.found).1
  have heff := effect_of_next (s.world dev) c hc.ok
  have hfile := hc.onFile
  have hkmalloc := hc.fresh
  generalize tunnelNext (s.world dev) c = res at heff
  have hstill : ∀ w : World, (w.dev.incomingBioList ++ w.dev.pendingBioList).Perm dev.bioList →
      w.entries = s.entries → w.ended = s.ended →
      Accounted (subs ++ []) (s.put dev w none) := by
    intro w hlists hentries hended
    obtain ⟨before, after, hbefore, hafter⟩ := put_linked hl hd w
    rw [List.append_nil]
    refine ha.moved (List.Perm.append_right _ ?_) hentries hended
    rw [hbefore, hafter]
    exact (hlists.append_right after).append_left before
  cases heff with
  | opened f hopen => cases hfile
  | closed f => cases hfile
  | ticked j => cases hfile
  | completed f byte valid entry hentry => exact absurd rfl (hbyte f byte valid)
  | refused bio =>
    obtain ⟨before, after, hbefore, hafter⟩ := put_linked hl hd ((s.world dev).bioEndio bio (-eio))
    refine ha.refused (hfresh bio none rfl) ?_ rfl rfl
    rw [Driver.held, hafter, Driver.held, hbefore]
    rfl
  | queued bio new =>
    obtain ⟨before, after, hbefore, hafter⟩ := put_linked hl hd
      (((s.world dev).publish bio new).account bio (bioDataDir bio))
    have hentries : (((s.world dev).publish bio new).account bio (bioDataDir bio)).entries =
        Function.update s.entries new (some ⟨bio, s.jiffies⟩) := rfl
    have hperm : (s.put dev (((s.world dev).publish bio new).account bio (bioDataDir bio))
        none).linked.Perm (new :: s.linked) := by
      rw [hbefore, hafter]
      show (before ++ (dev.incomingBioList ++ [new] ++ dev.pendingBioList ++ after)).Perm _
      rw [List.append_assoc, List.append_assoc, List.singleton_append, Device.bioList,
        List.append_assoc]
      rw [← List.append_assoc before, ← List.append_assoc before]
      exact List.perm_middle
    exact ha.queued (hfresh bio (some new) rfl) hkmalloc.1 (hperm.append_right _) hentries rfl
  | delivered f valid signal a rest entry hlist hentry =>
    have hcons : dev.incomingBioList = a :: rest := hlist
    refine hstill _ ?_ rfl rfl
    show (rest ++ (dev.pendingBioList ++ [a])).Perm dev.bioList
    rw [Device.bioList, hcons, ← List.append_assoc]
    exact List.perm_append_comm
  | set f buf valid hlen => exact hstill _ (.refl _) rfl rfl
  | moved f buf valid mem code hlen hone => exact hstill _ (.refl _) rfl rfl
  | quiet c ret hq =>
    cases c with
    | submit bio new =>
      -- the outside remembers a submission
      have hsame := congrArg Hist.submitted (hq ⟨[], [], 0, []⟩)
      cases hsame
    | _ => exact hstill _ (.refl _) rfl rfl

/-- **Every step** keeps the accounts. -/
theorem Accounted.next (ha : Accounted subs s) (hl : Listed h s.ctrl) (c : DriverCall)
    (hfresh : ∀ name bio new, c = .tunnel name (.submit bio new) → bio ∉ subs)
    (he : wholeDriver.enabled s c) :
    Accounted (subs ++ (submittedBios [(c, (wholeDriver.next s c).2)]).map Prod.snd)
      (wholeDriver.next s c).1 := by
  cases c with
  | pages ps bytes =>
    have hsame : subs ++ (submittedBios
        [(.pages ps bytes, (wholeDriver.next s (.pages ps bytes)).2)]).map Prod.snd = subs :=
      List.append_nil _
    rw [hsame]
    exact ha.moved (.refl _) rfl rfl
  | tick =>
    have hsame : subs ++ (submittedBios [(.tick, (wholeDriver.next s .tick).2)]).map Prod.snd =
        subs := List.append_nil _
    rw [hsame]
    exact ha.moved (.refl _) rfl rfl
  | tunnel name c =>
    obtain ⟨dev, hc⟩ := tunnel_calls he
    rw [hc.next]
    by_cases hbyte : ∃ f byte valid, c = .write f [byte] valid
    · obtain ⟨f, byte, valid, rfl⟩ := hbyte
      rw [show subs ++ (submittedBios [(.tunnel name (.write f [byte] valid), _)]).map Prod.snd =
        subs from List.append_nil _]
      exact ha.byte hl hc
    · have hno : ∀ f byte valid, c ≠ .write f [byte] valid := fun f byte valid heq =>
        hbyte ⟨f, byte, valid, heq⟩
      rw [frees_none hno]
      exact ha.call hl hc hno (fun bio new heq => hfresh name bio new (by rw [heq])) _
  | control c =>
    have hr := he.2
    have hsame : subs ++ (submittedBios
        [(.control c, (wholeDriver.next s (.control c)).2)]).map Prod.snd = subs :=
      List.append_nil _
    rw [hsame]
    refine ha.moved ?_ rfl rfl
    show ((controlNext s.ctrl c).1.deviceList.flatMap Device.bioList ++
      (s.leftBehind ++ s.abandons c).flatten).Perm (s.linked ++ s.leftBehind.flatten)
    rw [List.flatten_append]
    by_cases hremove : ∃ count name k, c = .ctrlWrite count (.remove name) k
    · obtain ⟨count, name, k, rfl⟩ := hremove
      rcases remove_linked hl count name k hr with ⟨⟨code, hret⟩, hstate⟩ | ⟨dev, hf, hret, hperm⟩
      · have hnone : s.abandons (.ctrlWrite count (.remove name) k) = [] := by
          simp only [Driver.abandons, hret]
        have hlinked : (controlNext s.ctrl (.ctrlWrite count (.remove name) k)).1.deviceList.flatMap
            Device.bioList = s.linked := by
          show (ctrlWrite s.ctrl count (.remove name) k).1.deviceList.flatMap Device.bioList = _
          rw [hstate]
          rfl
        rw [hnone, hlinked, List.flatten_nil, List.append_nil]
      · have hleft : (s.abandons (.ctrlWrite count (.remove name) k)).flatten = dev.bioList := by
          simp [Driver.abandons, hret, hf, Device.bioList]
        rw [hleft]
        exact left_perm hperm
    · have hno : ∀ count name k, c ≠ .ctrlWrite count (.remove name) k := fun count name k heq =>
        hremove ⟨count, name, k, heq⟩
      have hnone : s.abandons c = [] := by
        unfold Driver.abandons
        split
        · next count name k => exact absurd rfl (hno count name k)
        · rfl
      rw [hnone, List.flatten_nil, List.append_nil, control_linked hl hr hno]
      exact .refl _

theorem run_listing {mem : Mem} {tr : List (DriverCall × DriverRet)}
    (hrun : Run wholeDriver driverUsers (.init mem) tr s) :
    Listed (ctrlHist (controlPart tr)) s.ctrl :=
  (run_listed (fun _ _ h => h) (control_unaffected hrun)).of_plane

theorem run_accounted {mem : Mem} {tr : List (DriverCall × DriverRet)}
    (hrun : Run wholeDriver driverUsers (.init mem) tr s) :
    Accounted ((submittedBios tr).map Prod.snd) s := by
  refine Run.keeps (fun tr s => Accounted ((submittedBios tr).map Prod.snd) s) ?_ ?_ hrun
  · exact ⟨List.nodup_nil, fun a => by simp [Driver.held, Driver.linked, Driver.init, Ctrl.init],
      List.nodup_nil, .refl _⟩
  · intro tr s c hrun ha hp he
    rw [submittedBios_snoc]
    refine ha.next (run_listing hrun) c (fun name bio new heq => ?_) he
    subst heq
    exact hp.2

/-- **Every bio, on any device.**  In every run of the driver with any number of devices, whatever ids
the clients set, also those of other devices and of devices that were removed: the bios that were
submitted are those that were ended, those on the lists and those left behind by removals, each once.
So no bio is ended twice, by whichever client, and none is lost but by removals.  The allocated entries
are those on the lists and those left behind, and each of them is on one list, once. -/
theorem every_bio_accounted {mem : Mem} {tr : List (DriverCall × DriverRet)}
    (hrun : Run wholeDriver driverUsers (.init mem) tr s) :
    (s.endedBios ++ s.outstanding ++ s.abandoned).Nodup ∧
      ((submittedBios tr).map Prod.snd).Perm (s.endedBios ++ s.outstanding ++ s.abandoned) ∧
      (s.linked ++ s.leftBehind.flatten).Nodup ∧
      ∀ a, (s.entries a).isSome ↔ a ∈ s.linked ++ s.leftBehind.flatten := by
  have ha := run_accounted hrun
  have hbios : s.endedBios ++ s.outstanding ++ s.abandoned = s.endedBios ++ s.heldBios := by
    rw [Driver.heldBios, Driver.held, List.filterMap_append, List.append_assoc]
    rfl
  rw [hbios]
  exact ⟨ha.bios.nodup_iff.mp ha.once, ha.bios, ha.nodup, ha.live⟩

end

section
attribute [local instance] linux32

/-- Three writes on the second device, which is removed with them. -/
def sampleLeft : List DriverCall :=
  samplePair ++ [.tunnel otherName (.submit sampleWrite (some 16)),
    .tunnel otherName (.submit { sampleWrite with biSector := 2 } (some 32)),
    .tunnel otherName (.submit { sampleWrite with biSector := 3 } (some 48)),
    .control (.releases otherName (.block, 0)),
    .control (.ctrlWrite 64 (.remove otherName) otherAnswers)]

/-- A client of the first device completes the second of them. -/
def sampleBetween : List DriverCall :=
  sampleLeft ++ [.tunnel sampleName (.write 0 (wordBytes 8 32) 8), .tunnel sampleName (.write 0 [0] 1)]

theorem every_bio_accounted_sample :
    (exec wholeDriver (.init fun _ => 0) sampleBetween).ended =
      [({ sampleWrite with biSector := 2 }, 0)] ∧
    (exec wholeDriver (.init fun _ => 0) sampleBetween).linked = [] ∧
    (exec wholeDriver (.init fun _ => 0) sampleBetween).leftBehind = [[16, 48], []] ∧
    ((submittedBios (traceOf wholeDriver (.init fun _ => 0) sampleBetween)).map Prod.snd).Perm
      ((exec wholeDriver (.init fun _ => 0) sampleBetween).endedBios ++
        (exec wholeDriver (.init fun _ => 0) sampleBetween).outstanding ++
        (exec wholeDriver (.init fun _ => 0) sampleBetween).abandoned) := by
  have hrun := @path_exec _ _ _ wholeDriver driverUsers [] (.init fun _ => 0) sampleBetween
    (by decide +kernel)
  exact ⟨by decide +kernel, by decide +kernel, by decide +kernel, (every_bio_accounted hrun).2.1⟩

end

end BDTun
